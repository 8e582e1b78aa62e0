import VendorScreen.Json.Basic
import VendorScreen.Text.Utf16

namespace VendorScreen.Json

/-!
# Reading JSON

Text is cut into tokens, and the tokens drive a machine whose stack holds the containers under way.
Each token takes one step, so values may nest to any depth.
-/

inductive Token where
  | openArray
  | closeArray
  | openObject
  | closeObject
  | comma
  | colon
  | string (text : Option String)
  | scalar (value : Json)

def isSpace (c : Char) : Bool := c = ' ' || c = '\t' || c = '\n' || c = '\r'

def mark? : Char → Option Token
  | '[' => some .openArray
  | ']' => some .closeArray
  | '\x7b' => some .openObject
  | '\x7d' => some .closeObject
  | ',' => some .comma
  | ':' => some .colon
  | _ => none

/-- The character that a backslash and the given one stand for. -/
def escaped? : Char → Option Char
  | '"' => some '"'
  | '\\' => some '\\'
  | '/' => some '/'
  | 'b' => some '\x08'
  | 'f' => some '\x0c'
  | 'n' => some '\n'
  | 'r' => some '\r'
  | 't' => some '\t'
  | _ => none

def hexValue? (c : Char) : Option Nat :=
  if '0' ≤ c ∧ c ≤ '9' then some (c.toNat - '0'.toNat)
  else if 'a' ≤ c ∧ c ≤ 'f' then some (c.toNat - 'a'.toNat + 10)
  else if 'A' ≤ c ∧ c ≤ 'F' then some (c.toNat - 'A'.toNat + 10)
  else none

/-- The UTF-16 unit in four hexadecimal digits. -/
def unit? (a b c d : Char) : Option Nat := do
  return (((← hexValue? a) * 16 + (← hexValue? b)) * 16 + (← hexValue? c)) * 16 + (← hexValue? d)

/-- Reads a string literal to its closing quotation mark, as UTF-16 units. `done` holds the units so
far, the last one first. -/
def readUnits (done : List Nat) : List Char → Option (List Nat × List Char)
  | [] => none
  | '"' :: rest => some (done.reverse, rest)
  | '\\' :: 'u' :: a :: b :: c :: d :: rest =>
      match unit? a b c d with
      | none => none
      | some unit => readUnits (unit :: done) rest
  | '\\' :: c :: rest =>
      match escaped? c with
      | none => none
      | some c => readUnits (c.toNat :: done) rest
  | c :: rest =>
      if c < ' ' ∨ c = '\\' then none
      else readUnits ((Text.Utf16.encodeChar c).reverse ++ done) rest

theorem length_lt_of_readUnits {done units : List Nat} {cs rest : List Char}
    (h : readUnits done cs = some (units, rest)) : rest.length < cs.length := by
  fun_induction readUnits done cs <;> simp_all <;> omega

/-- Reads a string literal to its closing quotation mark. -/
def readString (cs : List Char) : Option (Option String × List Char) :=
  match readUnits [] cs with
  | none => none
  | some (units, rest) => some ((Text.Utf16.decode? units).map String.ofList, rest)

theorem length_lt_of_readString {cs rest : List Char} {text : Option String}
    (h : readString cs = some (text, rest)) : rest.length < cs.length := by
  unfold readString at h
  split at h
  · simp at h
  · next hunits =>
      simp only [Option.some.injEq, Prod.mk.injEq] at h
      exact h.2 ▸ length_lt_of_readUnits hunits

def isDigit (c : Char) : Bool := '0' ≤ c && c ≤ '9'

/-- The number that decimal digits write. -/
def digitsValue (digits : List Char) : Nat :=
  digits.foldl (fun n c => n * 10 + (c.toNat - '0'.toNat)) 0

/-- The exponent of a number literal, after its letter. -/
def readExponent? (cs : List Char) : Option Int :=
  let (negative, digits) := match cs with
    | '-' :: rest => (true, rest)
    | '+' :: rest => (false, rest)
    | _ => (false, cs)
  if digits.isEmpty || !digits.all isDigit then none
  else if negative then some (-(digitsValue digits : Int))
  else some (digitsValue digits)

/-- A number literal: no zero in front of other digits, and a digit on both sides of a point. -/
def readNumeral? (cs : List Char) : Option Numeral := do
  let (negative, cs) := match cs with
    | '-' :: rest => (true, rest)
    | _ => (false, cs)
  let whole := cs.takeWhile isDigit
  if whole.isEmpty || (whole.head? = some '0' && 1 < whole.length) then none
  else
    let (fraction, rest) := match cs.dropWhile isDigit with
      | '.' :: rest => (some (rest.takeWhile isDigit), rest.dropWhile isDigit)
      | rest => (none, rest)
    if fraction = some [] then none
    else
      let digits := fraction.getD []
      let exponent ← match rest with
        | [] => some none
        | c :: rest => if c = 'e' ∨ c = 'E' then (readExponent? rest).map some else none
      return { negative, significand := digitsValue (whole ++ digits)
               fractionDigits := digits.length, exponent }

/-- A literal that stands without quotation marks. -/
def readScalar? (word : List Char) : Option Json :=
  if word = "null".toList then some null
  else if word = "true".toList then some (bool true)
  else if word = "false".toList then some (bool false)
  else (readNumeral? word).map number

/-- The characters that can stand in a literal without quotation marks. -/
def isWordChar (c : Char) : Bool :=
  isDigit c || ('a' ≤ c && c ≤ 'z') || ('A' ≤ c && c ≤ 'Z') || c = '-' || c = '+' || c = '.'

theorem length_dropWhile_le {α : Type} (p : α → Bool) (l : List α) :
    (l.dropWhile p).length ≤ l.length := by
  induction l with
  | nil => simp
  | cons a l ih =>
      simp only [List.dropWhile_cons]
      split
      · exact Nat.le_succ_of_le ih
      · exact Nat.le_refl _

/-- The tokens of a text, after those in `done`, the last one first. -/
def tokensOnto? (done : List Token) : List Char → Option (List Token)
  | [] => some done.reverse
  | c :: cs =>
      if isSpace c then tokensOnto? done cs
      else
        match mark? c with
        | some token => tokensOnto? (token :: done) cs
        | none =>
            if c = '"' then
              match _hs : readString cs with
              | none => none
              | some (text, rest) => tokensOnto? (.string text :: done) rest
            else if isWordChar c then
              match readScalar? (c :: cs.takeWhile isWordChar) with
              | none => none
              | some value => tokensOnto? (.scalar value :: done) (cs.dropWhile isWordChar)
            else none
termination_by cs => cs.length
decreasing_by
  · simp
  · simp
  · exact Nat.lt_succ_of_lt (length_lt_of_readString _hs)
  · exact Nat.lt_succ_of_le (length_dropWhile_le _ _)

/-- A container under way: what it holds already, the last one first, and the key for the value that
comes next. -/
inductive Frame where
  | inArray (done : List Json)
  | inObject (done : List (Option String × Json)) (key : Option String)

/-- What may come next, inside which containers. -/
inductive State where
  | value (stack : List Frame)
  | itemOrClose (stack : List Frame)
  | keyOrClose (stack : List Frame)
  | key (stack : List Frame) (done : List (Option String × Json))
  | colon (stack : List Frame) (done : List (Option String × Json)) (key : Option String)
  | after (value : Json) (frame : Frame) (stack : List Frame)
  | complete (value : Json)

namespace State

/-- A value has been read. -/
def place (item : Json) : List Frame → State
  | [] => complete item
  | frame :: stack => after item frame stack

/-- A token begins a value. -/
def enter? (stack : List Frame) : Token → Option State
  | .openArray => some (itemOrClose stack)
  | .openObject => some (keyOrClose stack)
  | .string text => some (place (.string text) stack)
  | .scalar item => some (place item stack)
  | _ => none

def step? (token : Token) : State → Option State
  | value stack => enter? stack token
  | itemOrClose stack =>
      match token with
      | .closeArray => some (place (array []) stack)
      | token => enter? (.inArray [] :: stack) token
  | keyOrClose stack =>
      match token with
      | .closeObject => some (place (object []) stack)
      | .string text => some (colon stack [] text)
      | _ => none
  | key stack done =>
      match token with
      | .string text => some (colon stack done text)
      | _ => none
  | colon stack done name =>
      match token with
      | .colon => some (value (.inObject done name :: stack))
      | _ => none
  | after item (.inArray done) stack =>
      match token with
      | .comma => some (value (.inArray (item :: done) :: stack))
      | .closeArray => some (place (array (item :: done).reverse) stack)
      | _ => none
  | after item (.inObject done name) stack =>
      match token with
      | .comma => some (key stack ((name, item) :: done))
      | .closeObject => some (place (object ((name, item) :: done).reverse) stack)
      | _ => none
  | complete _ => none

end State

/-- The value that the tokens write. -/
def ofTokens? (tokens : List Token) : Option Json :=
  match tokens.foldlM (fun state token => State.step? token state) (.value []) with
  | some (.complete value) => some value
  | _ => none

/-- The value that a text writes. -/
def read? (text : String) : Option Json := do
  let tokens ← tokensOnto? [] text.toList
  ofTokens? tokens

end VendorScreen.Json
