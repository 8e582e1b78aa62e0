namespace VendorScreen

/-!
# Outcomes

A query ends with a value, with an error for its caller, or abandoned without either. Only the last
stops the work that surrounds it.
-/

inductive Outcome (ε α : Type) where
  | ok (value : α)
  | error (cause : ε)
  | abandoned
deriving DecidableEq, Repr

namespace Outcome

variable {ε ε' α β : Type}

def bind (o : Outcome ε α) (f : α → Outcome ε β) : Outcome ε β :=
  match o with
  | ok value => f value
  | error cause => .error cause
  | abandoned => .abandoned

def map (f : α → β) : Outcome ε α → Outcome ε β
  | ok value => .ok (f value)
  | error cause => .error cause
  | abandoned => .abandoned

def mapError (f : ε → ε') : Outcome ε α → Outcome ε' α
  | ok value => .ok value
  | error cause => .error (f cause)
  | abandoned => .abandoned

def ofExcept : Except ε α → Outcome ε α
  | .ok value => .ok value
  | .error cause => .error cause

instance : Monad (Outcome ε) where
  pure := ok
  bind := bind

end Outcome

end VendorScreen
