import Mathlib

namespace VendorScreen

/-!
# Steps that can fail

A step after another one is taken only if the first one succeeds. How the two end together says how
each of them did.
-/

variable {ε ε' α β : Type} {first : Except ε α} {next : α → Except ε β} {fault : ε}

theorem bind_eq_ok_iff {value : β} :
    (first >>= next) = .ok value ↔ ∃ a, first = .ok a ∧ next a = .ok value := by
  cases first <;> simp [bind, Except.bind]

theorem bind_eq_error_iff : (first >>= next) = .error fault ↔
    first = .error fault ∨ ∃ a, first = .ok a ∧ next a = .error fault := by
  cases first <;> simp [bind, Except.bind]

/-- Words for a fault do not make a success. -/
theorem mapError_eq_ok_iff {f : ε → ε'} {value : α} :
    first.mapError f = .ok value ↔ first = .ok value := by
  cases first <;> simp [Except.mapError]

end VendorScreen
