import VendorScreen.Bytes
import VendorScreen.ByteSource
import VendorScreen.Dex.ModifiedUtf8

namespace VendorScreen.Dex

/-!
# Class containers

A container names a class in three steps: its definition holds the index of a type, the type that
of a string, and the string is the class descriptor. Only the header and these tables are read.
Decoding gives the names of all classes or none.
-/

structure Table where
  size : Nat
  offset : Nat
deriving DecidableEq, Repr

structure Container where
  bytes : ByteArray
  stringIds : Table
  typeIds : Table
  classDefs : Table

def minimumHeaderSize : Nat := 0x70

def endianConstant : Nat := 0x12345678

def classDefSize : Nat := 0x20

def readNumber (b : ByteArray) (start : Nat) (place : Place) : Except Fault Nat :=
  match Bytes.u32? b start with
  | none => .error (.outOfBounds place start)
  | some n => .ok n

def isDigit (byte : UInt8) : Bool := 0x30 ≤ byte && byte ≤ 0x39

/-- The eight bytes are the format's name, three digits of version, and zero. -/
def isMagic : List UInt8 → Bool
  | [0x64, 0x65, 0x78, 0x0a, p, q, r, 0x00] => isDigit p && isDigit q && isDigit r
  | _ => false

def readTable (b : ByteArray) (start : Nat) : Except Fault Table := do
  let size ← readNumber b start .tableSize
  let offset ← readNumber b (start + 4) .tableOffset
  return { size, offset }

/-- The table lies inside the container. -/
def checkTable (b : ByteArray) (table : Table) (itemSize : Nat) (place : Place) :
    Except Fault Unit :=
  if b.size < table.offset + table.size * itemSize then .error (.outOfBounds place table.offset)
  else .ok ()

/-- The container in the bytes. -/
def Container.open (b : ByteArray) : Except Fault Container := do
  if b.size < minimumHeaderSize then .error (.tooShort b.size)
  let magic := (b.extract 0 8).data.toList
  if !isMagic magic then .error (.badMagic magic)
  let tag ← readNumber b 0x28 .endianTag
  if tag ≠ endianConstant then .error (.unsupportedEndian tag)
  let headerSize ← readNumber b 0x24 .headerSize
  if headerSize < minimumHeaderSize then .error (.tooShort headerSize)
  let fileSize ← readNumber b 0x20 .fileSize
  if b.size < fileSize then .error (.outOfBounds .file fileSize)
  let stringIds ← readTable b 0x38
  let typeIds ← readTable b 0x40
  let classDefs ← readTable b 0x60
  checkTable b stringIds 4 .stringIds
  checkTable b typeIds 4 .typeIds
  checkTable b classDefs classDefSize .classDefs
  return ⟨b, stringIds, typeIds, classDefs⟩

namespace Container

/-- The item of a table of 32-bit numbers. -/
def item (c : Container) (table : Table) (place : Place) (index : Nat) : Except Fault Nat :=
  if table.size ≤ index then .error (.indexOutOfRange place index table.size)
  else readNumber c.bytes (table.offset + index * 4) place

/-- The descriptor of the class with the given definition. -/
def descriptor (c : Container) (classDef : Nat) : Except Fault String := do
  let typeIndex ← readNumber c.bytes (c.classDefs.offset + classDef * classDefSize) .classDef
  let stringIndex ← c.item c.typeIds .typeIds typeIndex
  let offset ← c.item c.stringIds .stringIds stringIndex
  ModifiedUtf8.read c.bytes offset

end Container

/-- The text between the first and the last character of a class descriptor. -/
def descriptorBody? (descriptor : String) : Option (List Char) :=
  match descriptor.toList with
  | 'L' :: rest =>
      if rest.getLast? = some ';' ∧ 1 < rest.length then some rest.dropLast else none
  | _ => none

/-- Packages are separated by slashes in a descriptor and inner classes by dollar signs; both become
dots. -/
def dotted (c : Char) : Char := if c = '/' ∨ c = '$' then '.' else c

/-- The class name that a descriptor stands for. -/
def className (descriptor : String) : Except Fault String :=
  match descriptorBody? descriptor with
  | none => .error (.badDescriptor descriptor)
  | some body => .ok (String.ofList (body.map dotted))

/-- The names of the `count` classes from definition `index` on, after those in `done`. -/
def Container.namesFrom (c : Container) (done : Array String) (index : Nat) :
    Nat → Except Fault (List String)
  | 0 => .ok done.toList
  | count + 1 =>
      match c.descriptor index with
      | .error fault => .error fault
      | .ok descriptor =>
          match className descriptor with
          | .error fault => .error fault
          | .ok name => c.namesFrom (done.push name) (index + 1) count

/-- The names of all classes, in the order of their definitions. -/
def Container.names (c : Container) : Except Fault (List String) :=
  c.namesFrom #[] 0 c.classDefs.size

/-- The names of the classes that a container defines. -/
def classNames (b : ByteArray) : Except Fault (List String) := do
  let container ← Container.open b
  container.names

/-- The class names in a container that is read to its end first, however much its archive declares
it to hold. -/
def decode (source : ByteSource) (_declaredSize : Nat) : Except Fault (List String) :=
  match source.drain with
  | .error reason => .error (.source reason)
  | .ok bytes => classNames bytes

end VendorScreen.Dex
