namespace VendorScreen

/-!
# Little-endian fields

Archives and class containers store their numbers with the low byte first. A field that does not
lie wholly inside the bytes has no value, so every reader built on `field?` notices a cut.
-/

namespace Bytes

/-- The number in the `width` bytes of `b` from position `start` on. -/
def field? (b : ByteArray) (start : Nat) : Nat → Option Nat
  | 0 => some 0
  | width + 1 => do
      let low ← b[start]?
      let high ← field? b (start + 1) width
      return low.toNat + 256 * high

/-- The bytes that write `value` as a field of the given width. -/
def ofField (value : Nat) : Nat → List UInt8
  | 0 => []
  | width + 1 => (value % 256).toUInt8 :: ofField (value / 256) width

def u16? (b : ByteArray) (start : Nat) : Option Nat := field? b start 2

def u32? (b : ByteArray) (start : Nat) : Option Nat := field? b start 4

def u64? (b : ByteArray) (start : Nat) : Option Nat := field? b start 8

/-- The last of the `span` positions from `lowest` on where the 32-bit `mark` stands. -/
def lastMark? (b : ByteArray) (mark lowest : Nat) : Nat → Option Nat
  | 0 => none
  | span + 1 =>
      if u32? b (lowest + span) = some mark then some (lowest + span)
      else lastMark? b mark lowest span

/-- The first of the `span` positions from `start` on where the 32-bit `mark` stands. -/
def firstMark? (b : ByteArray) (mark : Nat) (start : Nat) : Nat → Option Nat
  | 0 => none
  | span + 1 =>
      if u32? b start = some mark then some start
      else firstMark? b mark (start + 1) span

@[simp] theorem field?_zero (b : ByteArray) (start : Nat) : field? b start 0 = some 0 := rfl

theorem field?_succ (b : ByteArray) (start width : Nat) :
    field? b start (width + 1) = b[start]?.bind fun low =>
      (field? b (start + 1) width).map fun high => low.toNat + 256 * high := by
  cases h : b[start]? with
  | none => simp [field?, h]
  | some low => cases h' : field? b (start + 1) width <;> simp [field?, h, h']

end Bytes

end VendorScreen
