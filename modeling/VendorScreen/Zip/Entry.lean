import VendorScreen.Bytes
import VendorScreen.Text.CodePage437
import VendorScreen.Text.Utf8
import VendorScreen.Zip.Fault

namespace VendorScreen.Zip

/-!
# Directory entries

The central directory lists one header for each entry. Sizes, names and flags are taken from here
alone; the header in front of an entry's data only says how long it is itself.
-/

structure Entry where
  name : String
  isEncrypted : Bool
  method : Nat
  crc : Nat
  compressedSize : Nat
  size : Nat
  headerOffset : Nat
  /-- The entry carries an item that describes strong encryption. -/
  hasEncryptionItem : Bool
deriving DecidableEq, Repr

/-- A 32-bit field with this value is continued in the entry's extra field. -/
def wideMark : Nat := 0xffffffff

def encryptedMethod : Nat := 99

/-- The lengths of the three parts that follow the fixed part of a directory header. -/
def fixedHeaderSize : Nat := 46

/-- Replaces a marked field by the wide number at `start`, and says where the next one stands. -/
def widen? (extra : ByteArray) (start value : Nat) : Option (Nat × Nat) :=
  if value = wideMark then (Bytes.u64? extra start).map fun wide => (wide, start + 8)
  else some (value, start)

/-- The wide numbers of an entry. What was read before the item runs short is kept. -/
def readWide (extra : ByteArray) (start : Nat) (entry : Entry) : Entry × Option Nat :=
  match widen? extra start entry.size with
  | none => (entry, none)
  | some (size, start) =>
      let entry := { entry with size }
      match widen? extra start entry.compressedSize with
      | none => (entry, none)
      | some (compressedSize, start) =>
          let entry := { entry with compressedSize }
          match widen? extra start entry.headerOffset with
          | none => (entry, none)
          | some (headerOffset, start) => ({ entry with headerOffset }, some start)

/-- The item on strong encryption: version, vendor, strength, and the method of the data in it. -/
def readEncryption (extra : ByteArray) (start length : Nat) (entry : Entry) :
    Except Fault (Option Entry) :=
  if length ≠ 7 then .error (.unsupported .encryptionItemLength)
  else
    match Bytes.u16? extra start, Bytes.u16? extra (start + 2),
        Bytes.field? extra (start + 4) 1, Bytes.u16? extra (start + 5) with
    | some version, some vendor, some strength, some method =>
        if vendor ≠ 0x4541 then .error (.malformed .encryptionVendor)
        else if version ≠ 1 ∧ version ≠ 2 then .error (.malformed .encryptionVersion)
        else if strength < 1 ∨ 3 < strength then .error (.malformed .encryptionStrength)
        else .ok (some { entry with method, hasEncryptionItem := true })
    | _, _, _, _ => .ok none

/-- Takes in the items of an extra field from `start` on. An item that runs short ends it. -/
def readExtra (extra : ByteArray) (start : Nat) (entry : Entry) : Except Fault Entry :=
  if _hstart : start < extra.size then
    match Bytes.u16? extra start, Bytes.u16? extra (start + 2) with
    | some kind, some length =>
        if kind = 1 then
          match readWide extra (start + 4) entry with
          | (entry, none) => .ok entry
          | (entry, some after) => readExtra extra (max after (start + 4 + length)) entry
        else if kind = 0x9901 then
          match readEncryption extra (start + 4) length entry with
          | .error fault => .error fault
          | .ok none => .ok entry
          | .ok (some entry) => readExtra extra (start + 4 + 7 + 7) entry
        else readExtra extra (start + 4 + length) entry
    | _, _ => .ok entry
  else .ok entry
termination_by extra.size - start

def decodeName (isUtf8 : Bool) (bytes : ByteArray) : String :=
  if isUtf8 then Text.Utf8.decodeLossy bytes else Text.CodePage437.decode bytes

/-- The bytes `start` to `start + length`, if all of them are there. -/
def slice? (b : ByteArray) (start length : Nat) : Option ByteArray :=
  if start + length ≤ b.size then some (b.extract start (start + length)) else none

/-- The entry whose header stands at `start`, and the position after the header. The recorded offset
of the entry is corrected by `shift`. -/
def readEntry (b : ByteArray) (shift start : Nat) : Except Fault (Entry × Nat) :=
  match Bytes.u32? b start with
  | none => .error .endOfBytes
  | some mark =>
      if mark ≠ 0x02014b50 then .error (.malformed .directoryHeader)
      else
        let fields : Option (Entry × ByteArray × Nat) := do
          let flags ← Bytes.u16? b (start + 8)
          let method ← Bytes.u16? b (start + 10)
          let crc ← Bytes.u32? b (start + 16)
          let compressedSize ← Bytes.u32? b (start + 20)
          let size ← Bytes.u32? b (start + 24)
          let nameLength ← Bytes.u16? b (start + 28)
          let extraLength ← Bytes.u16? b (start + 30)
          let commentLength ← Bytes.u16? b (start + 32)
          let headerOffset ← Bytes.u32? b (start + 42)
          let name ← slice? b (start + fixedHeaderSize) nameLength
          let extra ← slice? b (start + fixedHeaderSize + nameLength) extraLength
          let after := start + fixedHeaderSize + nameLength + extraLength
          let _ ← slice? b after commentLength
          let entry : Entry := {
            name := decodeName (flags.testBit 11) name
            isEncrypted := flags.testBit 0
            method, crc, compressedSize, size, headerOffset
            hasEncryptionItem := false }
          return (entry, extra, after + commentLength)
        match fields with
        | none => .error .endOfBytes
        | some (entry, extra, next) =>
            match readExtra extra 0 entry with
            | .error fault => .error fault
            | .ok entry =>
                if entry.method = encryptedMethod ∧ entry.hasEncryptionItem = false then
                  .error (.malformed .encryptionItemMissing)
                else if Nat.pow 2 64 ≤ entry.headerOffset + shift then
                  .error (.malformed .headerOffset)
                else .ok ({ entry with headerOffset := entry.headerOffset + shift }, next)

end VendorScreen.Zip
