namespace VendorScreen.Dex.Leb128

/-!
# Variable-length numbers

A number is written in groups of seven bits, the lowest first, with the top bit of a byte set when
another group follows. Numbers here have 32 bits, so five groups are the most there can be; what a
fifth group holds beyond bit 31 is lost.
-/

/-- The number written in at most `limit` groups from `start` on, and the position after it. -/
def groups? (b : ByteArray) (start : Nat) : Nat → Option (Nat × Nat)
  | 0 => none
  | limit + 1 => do
      let byte ← b[start]?
      if byte < 0x80 then return (byte.toNat, start + 1)
      else
        let (high, next) ← groups? b (start + 1) limit
        return (byte.toNat - 0x80 + 128 * high, next)

def longest : Nat := 5

/-- The 32-bit number at `start`, and the position after it. -/
def read? (b : ByteArray) (start : Nat) : Option (Nat × Nat) :=
  (groups? b start longest).map fun (value, next) => (value % Nat.pow 2 32, next)

/-- The groups of `n`, at most `limit` of them. -/
def encodeWithin (n : Nat) : Nat → List UInt8
  | 0 => []
  | limit + 1 =>
      if n < 128 then [n.toUInt8]
      else (n % 128 + 128).toUInt8 :: encodeWithin (n / 128) limit

def encode (n : Nat) : List UInt8 := encodeWithin n longest

end VendorScreen.Dex.Leb128
