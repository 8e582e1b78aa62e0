namespace VendorScreen.Base64

/-!
# Base 64

Three bytes become four characters of the standard alphabet, and a last group of one or two bytes
is padded with equals signs. Decoding accepts exactly the padded form.
-/

def alphabet : List Char :=
  "ABCDEFGHIJKLMNOPQRSTUVWXYZabcdefghijklmnopqrstuvwxyz0123456789+/".toList

/-- The character for a six-bit value. -/
def digit (value : Nat) : Char := alphabet.getD value '='

/-- The six-bit value of a character of the alphabet. -/
def value? (c : Char) : Option Nat :=
  if 'A' ≤ c ∧ c ≤ 'Z' then some (c.toNat - 'A'.toNat)
  else if 'a' ≤ c ∧ c ≤ 'z' then some (c.toNat - 'a'.toNat + 26)
  else if '0' ≤ c ∧ c ≤ '9' then some (c.toNat - '0'.toNat + 52)
  else if c = '+' then some 62
  else if c = '/' then some 63
  else none

/-- The four characters of the group with the bits of `n`, of which `kept` carry data. -/
def group (n kept : Nat) : List Char :=
  [digit (n / 262144 % 64), digit (n / 4096 % 64),
    if kept < 3 then '=' else digit (n / 64 % 64),
    if kept < 4 then '=' else digit (n % 64)]

/-- Encodes onto the characters in `done`, the last one first. -/
def encodeOnto (done : List Char) : List UInt8 → List Char
  | [] => done.reverse
  | [a] => ((group (a.toNat * 65536) 2).reverse ++ done).reverse
  | [a, b] => ((group (a.toNat * 65536 + b.toNat * 256) 3).reverse ++ done).reverse
  | a :: b :: c :: rest =>
      encodeOnto ((group (a.toNat * 65536 + b.toNat * 256 + c.toNat) 4).reverse ++ done) rest

def encode (b : ByteArray) : String := String.ofList (encodeOnto [] b.data.toList)

/-- Decodes onto the bytes in `done`. Bits that a padded group does not use must be zero. -/
def decodeOnto? (done : ByteArray) : List Char → Option ByteArray
  | [] => some done
  | [p, q, '=', '='] => do
      let n := (← value? p) * 64 + (← value? q)
      if n % 16 = 0 then some (done.push (n / 16).toUInt8) else none
  | [p, q, r, '='] => do
      let n := ((← value? p) * 64 + (← value? q)) * 64 + (← value? r)
      if n % 4 = 0 then some ((done.push (n / 1024).toUInt8).push (n / 4 % 256).toUInt8) else none
  | p :: q :: r :: s :: rest => do
      let n := (((← value? p) * 64 + (← value? q)) * 64 + (← value? r)) * 64 + (← value? s)
      decodeOnto? (((done.push (n / 65536).toUInt8).push (n / 256 % 256).toUInt8).push
        (n % 256).toUInt8) rest
  | _ => none

def decode? (text : String) : Option ByteArray := decodeOnto? ByteArray.empty text.toList

end VendorScreen.Base64
