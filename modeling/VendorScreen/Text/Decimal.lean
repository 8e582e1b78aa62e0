namespace VendorScreen.Text

/-!
# Unsigned numbers

A count is given in decimal digits, with one plus sign allowed in front, and has to fit 64 bits.
-/

inductive DecimalFault where
  | noDigits
  | badDigit
  | tooLarge
deriving DecidableEq, Repr

def DecimalFault.message : DecimalFault → String
  | noDigits => "cannot parse integer from empty string"
  | badDigit => "invalid digit found in string"
  | tooLarge => "number too large to fit in target type"

def countLimit : Nat := Nat.pow 2 64

def digitValue? (c : Char) : Option Nat :=
  if '0' ≤ c ∧ c ≤ '9' then some (c.toNat - '0'.toNat) else none

/-- The number that the digits continue `n` to. The first character that spoils it decides what is
wrong. -/
def readDigits (n : Nat) : List Char → Except DecimalFault Nat
  | [] => .ok n
  | c :: rest =>
      match digitValue? c with
      | none => .error .badDigit
      | some digit =>
          if countLimit ≤ 10 * n + digit then .error .tooLarge else readDigits (10 * n + digit) rest

/-- The number that a text writes. -/
def readCount : List Char → Except DecimalFault Nat
  | [] => .error .noDigits
  | ['+'] => .error .badDigit
  | '+' :: rest => readDigits 0 rest
  | cs => readDigits 0 cs

end VendorScreen.Text
