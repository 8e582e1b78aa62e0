import VendorScreen.Json.Numeral

namespace VendorScreen

/-!
# JSON values

A string literal may hold half of a surrogate pair; it then has no text, which matters only to a
reader that wants the text.
-/

inductive Json where
  | null
  | bool (value : Bool)
  | number (literal : Numeral)
  | string (text : Option String)
  | array (items : List Json)
  | object (fields : List (Option String × Json))

namespace Json

def text (s : String) : Json := string (some s)

def int (n : Int) : Json := number (.ofInt n)

/-- An object with the given keys. -/
def ofFields (fields : List (String × Json)) : Json :=
  object (fields.map fun (key, value) => (some key, value))

def texts (items : List String) : Json := array (items.map text)

/-- The values under a key, in the order in which they are written. -/
def lookup (fields : List (Option String × Json)) (key : String) : List Json :=
  fields.filterMap fun (name, value) => if name = some key then some value else none

mutual

/-- How many containers are nested in each other. -/
def depth : Json → Nat
  | array items => depthItems items + 1
  | object fields => depthFields fields + 1
  | _ => 0

def depthItems : List Json → Nat
  | [] => 0
  | item :: rest => max (depth item) (depthItems rest)

def depthFields : List (Option String × Json) → Nat
  | [] => 0
  | (_, value) :: rest => max (depth value) (depthFields rest)

end

mutual

/-- Every string in the value has text and every number fits a double. -/
def isRepresentable : Json → Bool
  | string text => text.isSome
  | number literal => !literal.overflowsDouble
  | array items => allRepresentable items
  | object fields => fieldsRepresentable fields
  | _ => true

def allRepresentable : List Json → Bool
  | [] => true
  | item :: rest => isRepresentable item && allRepresentable rest

def fieldsRepresentable : List (Option String × Json) → Bool
  | [] => true
  | (key, value) :: rest => key.isSome && isRepresentable value && fieldsRepresentable rest

end

end Json

end VendorScreen
