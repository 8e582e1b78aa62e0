import VendorScreen.Dex.Fault
import VendorScreen.Dex.Leb128
import VendorScreen.Text.Utf16

namespace VendorScreen.Dex.ModifiedUtf8

/-!
# Modified UTF-8

A string is its length in UTF-16 units, then each unit in one to three bytes, then a zero byte. The
unit zero takes two bytes, so the zero byte only ever ends a string.
-/

/-- The six bits of a continuation byte at `start`. -/
def continuation? (b : ByteArray) (start : Nat) : Option Nat := do
  let byte ← b[start]?
  if 0x80 ≤ byte && byte ≤ 0xbf then some (byte.toNat - 0x80) else none

/-- The unit that begins with the byte `lead` in front of `start`, and the position after it. -/
def unit? (b : ByteArray) (lead : UInt8) (start : Nat) : Option (Nat × Nat) :=
  if lead < 0x80 then some (lead.toNat, start)
  else if 0xc0 ≤ lead && lead ≤ 0xdf then do
    let low ← continuation? b start
    return ((lead.toNat - 0xc0) * 64 + low, start + 1)
  else if 0xe0 ≤ lead && lead ≤ 0xef then do
    let middle ← continuation? b start
    let low ← continuation? b (start + 1)
    return (((lead.toNat - 0xe0) * 64 + middle) * 64 + low, start + 2)
  else none

theorem le_of_unit? {b : ByteArray} {lead : UInt8} {start unit next : Nat}
    (h : unit? b lead start = some (unit, next)) : start ≤ next := by
  unfold unit? at h
  split at h
  · simp only [Option.some.injEq, Prod.mk.injEq] at h
    omega
  · split at h
    · simp only [Option.bind_eq_bind, Option.bind_eq_some_iff, Option.pure_def,
        Option.some.injEq, Prod.mk.injEq] at h
      omega
    · split at h
      · simp only [Option.bind_eq_bind, Option.bind_eq_some_iff, Option.pure_def,
          Option.some.injEq, Prod.mk.injEq] at h
        omega
      · simp at h

/-- The units up to the zero byte, after those in `done`. -/
def units? (b : ByteArray) (start : Nat) (done : Array Nat) : Option (Array Nat) :=
  if hstart : start < b.size then
    let lead := b[start]
    if lead = 0 then some done
    else
      match _hu : unit? b lead (start + 1) with
      | none => none
      | some (unit, next) => units? b next (done.push unit)
  else none
termination_by b.size - start
decreasing_by
  have := le_of_unit? _hu
  omega

/-- The string at `offset`. A length that could not fit in what is left is refused before any unit
is read. -/
def read (b : ByteArray) (offset : Nat) : Except Fault String :=
  match Leb128.read? b offset with
  | none => .error (.badString offset)
  | some (length, start) =>
      if b.size - start < length then .error (.badString offset)
      else
        match units? b start #[] with
        | none => .error (.badString offset)
        | some units =>
            if units.size ≠ length then .error (.badString offset)
            else
              match Text.Utf16.decode? units.toList with
              | none => .error (.badString offset)
              | some chars => .ok (String.ofList chars)

/-- The bytes of one unit. -/
def encodeUnit (unit : Nat) : List UInt8 :=
  if unit = 0 then [0xc0, 0x80]
  else if unit < 0x80 then [unit.toUInt8]
  else if unit < 0x800 then [(0xc0 + unit / 64).toUInt8, (0x80 + unit % 64).toUInt8]
  else [(0xe0 + unit / 4096).toUInt8, (0x80 + unit / 64 % 64).toUInt8, (0x80 + unit % 64).toUInt8]

/-- The bytes of a string: length, units, zero byte. -/
def encode (text : String) : List UInt8 :=
  let units := Text.Utf16.encode text.toList
  Leb128.encode units.length ++ units.flatMap encodeUnit ++ [0]

end VendorScreen.Dex.ModifiedUtf8
