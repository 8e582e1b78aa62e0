import VendorScreen.Json.Basic

namespace VendorScreen.Json

/-!
# Reading fields

A record is read key by key. A key it knows may stand once, with a value of the right kind; a key it
does not know is passed over.
-/

def text? : Json → Option String
  | string text => text
  | _ => none

def bool? : Json → Option Bool
  | bool value => some value
  | _ => none

def int64Limit : Int := (Nat.pow 2 63 : Nat)

/-- An integer of 64 bits. -/
def int64? : Json → Option Int
  | number literal => do
      let n ← literal.toInt?
      if -int64Limit ≤ n ∧ n < int64Limit then some n else none
  | _ => none

def texts? : Json → Option (List String)
  | array items => items.mapM text?
  | _ => none

/-- A text, or null for its absence. -/
def optionalText? : Json → Option (Option String)
  | null => some none
  | value => (text? value).map some

/-- The value under a key that may be missing. -/
def field? {α : Type} (fields : List (Option String × Json)) (key : String)
    (read : Json → Option α) : Option (Option α) :=
  match lookup fields key with
  | [] => some none
  | [value] => (read value).map some
  | _ => none

/-- The value under a key, or the given one if the key is missing. -/
def fieldD? {α : Type} (fields : List (Option String × Json)) (key : String)
    (read : Json → Option α) (default : α) : Option α :=
  (field? fields key read).map fun found => found.getD default

/-- The value under a key that has to be there. -/
def required? {α : Type} (fields : List (Option String × Json)) (key : String)
    (read : Json → Option α) : Option α :=
  (field? fields key read).join

/-- Every key has text, as it must to be compared with the keys of a record. -/
def keysHaveText (fields : List (Option String × Json)) : Bool :=
  fields.all fun field => field.1.isSome

end VendorScreen.Json
