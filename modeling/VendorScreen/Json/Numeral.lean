namespace VendorScreen

/-!
# Number literals

A literal keeps the form in which it is written, because a count must be written as an integer. As a
double it is a significand of 64 bits times a power of ten. The significand, the power and their
product are rounded one after the other, so a literal next to the largest double may miss it on
either side.
-/

/-- A number literal: `significand` with the point `fractionDigits` places from the right, times the
given power of ten. -/
structure Numeral where
  negative : Bool
  significand : Nat
  fractionDigits : Nat
  exponent : Option Int
deriving DecidableEq, Repr

namespace Numeral

def ofInt (n : Int) : Numeral := ⟨n < 0, n.natAbs, 0, none⟩

/-- The value of a literal that is written as an integer. A negative zero is no integer. -/
def toInt? (n : Numeral) : Option Int :=
  if n.fractionDigits = 0 ∧ n.exponent = none then
    if n.negative then
      if n.significand = 0 then none else some (-n.significand)
    else some n.significand
  else none

/-! ## Size as a double -/

/-- Appends decimal digits to a number as long as it fits 64 bits, and tells how many are left. -/
def appendDigits (n : Nat) : List Char → Nat × Nat
  | [] => (n, 0)
  | c :: digits =>
      let next := n * 10 + (c.toNat - '0'.toNat)
      if Nat.pow 2 64 ≤ next then (n, digits.length + 1) else appendDigits next digits

/-- The literal as a significand of 64 bits and a power of ten. Digits for which there is no room
only keep their places. -/
def scaled (n : Numeral) : Nat × Int :=
  let digits := Nat.toDigits 10 n.significand
  let point := digits.length - n.fractionDigits
  let (whole, wholeLeft) := appendDigits 0 (digits.take point)
  let (significand, fractionLeft) := appendDigits whole (digits.drop point)
  (significand, n.exponent.getD 0 + wholeLeft + fractionLeft - n.fractionDigits)

/-- The nearest number of 53 bits and any number of zero bits behind them. A half goes to the even
neighbour. -/
def roundDouble (n : Nat) : Nat :=
  let unit := Nat.pow 2 (n.log2 + 1 - 53)
  let units := n / unit
  let rest := n % unit
  if unit < 2 * rest ∨ (unit = 2 * rest ∧ units % 2 = 1) then (units + 1) * unit
  else units * unit

/-- The largest power of ten that is a double. -/
def largestPower : Int := 308

/-- The least number above all doubles. -/
def doubleLimit : Nat := Nat.pow 2 1024

/-- The literal is too large for a double. -/
def overflowsDouble (n : Numeral) : Bool :=
  let (significand, power) := n.scaled
  if significand = 0 ∨ power < 0 then false
  else if largestPower < power then true
  else doubleLimit ≤ roundDouble (roundDouble significand * roundDouble (Nat.pow 10 power.toNat))

end Numeral

end VendorScreen
