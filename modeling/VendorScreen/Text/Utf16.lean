namespace VendorScreen.Text.Utf16

/-!
# UTF-16

Strings in a class container are sequences of 16-bit units. A sequence has text exactly when every
surrogate in it belongs to a pair, high before low.
-/

def isHigh (unit : Nat) : Bool := 0xd800 ≤ unit && unit ≤ 0xdbff

def isLow (unit : Nat) : Bool := 0xdc00 ≤ unit && unit ≤ 0xdfff

/-- The character that a surrogate pair stands for. -/
def pair (high low : Nat) : Char :=
  Char.ofNat (0x10000 + (high - 0xd800) * 0x400 + (low - 0xdc00))

/-- Reads on from the characters in `done`, the last one first. -/
def decodeOnto? (done : List Char) : List Nat → Option (List Char)
  | [] => some done.reverse
  | [unit] =>
      if isHigh unit || isLow unit then none
      else some (Char.ofNat unit :: done).reverse
  | unit :: next :: rest =>
      if isHigh unit then
        if isLow next then decodeOnto? (pair unit next :: done) rest else none
      else if isLow unit then none
      else decodeOnto? (Char.ofNat unit :: done) (next :: rest)

/-- The characters of the units, unless a surrogate stands alone. -/
def decode? (units : List Nat) : Option (List Char) := decodeOnto? [] units

/-- The units of one character. -/
def encodeChar (c : Char) : List Nat :=
  if c.toNat < 0x10000 then [c.toNat]
  else [0xd800 + (c.toNat - 0x10000) / 0x400, 0xdc00 + (c.toNat - 0x10000) % 0x400]

def encode (chars : List Char) : List Nat := chars.flatMap encodeChar

end VendorScreen.Text.Utf16
