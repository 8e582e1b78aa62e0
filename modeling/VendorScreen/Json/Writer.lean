import VendorScreen.Json.Basic

namespace VendorScreen.Json

/-!
# Writing JSON

Two layouts: without any space, and indented by two spaces a level. Quotation marks, backslashes and
control characters are escaped, and all else stands for itself.
-/

/-- A hexadecimal digit. -/
def hexDigit (n : Nat) : Char := "0123456789abcdef".toList.getD n '0'

def writeChar (c : Char) : List Char :=
  if c = '"' then ['\\', '"']
  else if c = '\\' then ['\\', '\\']
  else if c = '\x08' then ['\\', 'b']
  else if c = '\x0c' then ['\\', 'f']
  else if c = '\n' then ['\\', 'n']
  else if c = '\r' then ['\\', 'r']
  else if c = '\t' then ['\\', 't']
  else if c < ' ' then ['\\', 'u', '0', '0', hexDigit (c.toNat / 16), hexDigit (c.toNat % 16)]
  else [c]

def writeString (s : String) : List Char :=
  '"' :: s.toList.flatMap writeChar ++ ['"']

/-- A literal without text is written as the empty string. -/
def writeText (text : Option String) : List Char := writeString (text.getD "")

def writeNumeral (n : Numeral) : List Char :=
  let digits := Nat.toDigits 10 n.significand
  let padded := List.replicate (n.fractionDigits + 1 - digits.length) '0' ++ digits
  let whole := padded.take (padded.length - n.fractionDigits)
  let fraction := padded.drop (padded.length - n.fractionDigits)
  (if n.negative then ['-'] else [])
    ++ whole
    ++ (if fraction.isEmpty then [] else '.' :: fraction)
    ++ (match n.exponent with
        | none => []
        | some e => 'e' :: (toString e).toList)

mutual

/-- The value without spaces. -/
def compact : Json → List Char
  | null => "null".toList
  | bool value => if value then "true".toList else "false".toList
  | number literal => writeNumeral literal
  | string text => writeText text
  | array items => '[' :: compactItems items ++ [']']
  | object fields => '\x7b' :: compactFields fields ++ ['\x7d']

def compactItems : List Json → List Char
  | [] => []
  | [item] => compact item
  | item :: rest => compact item ++ ',' :: compactItems rest

def compactFields : List (Option String × Json) → List Char
  | [] => []
  | [(key, value)] => writeText key ++ ':' :: compact value
  | (key, value) :: rest => writeText key ++ ':' :: (compact value ++ ',' :: compactFields rest)

end

def lineBreak (level : Nat) : List Char := '\n' :: List.replicate (2 * level) ' '

mutual

/-- The value with each item on a line of its own, at the given level of indentation. -/
def indented (level : Nat) : Json → List Char
  | array [] => ['[', ']']
  | array (item :: rest) =>
      '[' :: indentedItems (level + 1) (item :: rest) ++ lineBreak level ++ [']']
  | object [] => ['\x7b', '\x7d']
  | object (field :: rest) =>
      '\x7b' :: indentedFields (level + 1) (field :: rest) ++ lineBreak level ++ ['\x7d']
  | null => compact null
  | bool value => compact (bool value)
  | number literal => compact (number literal)
  | string text => compact (string text)

def indentedItems (level : Nat) : List Json → List Char
  | [] => []
  | [item] => lineBreak level ++ indented level item
  | item :: rest => lineBreak level ++ indented level item ++ ',' :: indentedItems level rest

def indentedFields (level : Nat) : List (Option String × Json) → List Char
  | [] => []
  | [(key, value)] => lineBreak level ++ writeText key ++ ": ".toList ++ indented level value
  | (key, value) :: rest =>
      lineBreak level ++ writeText key ++ ": ".toList ++ indented level value
        ++ ',' :: indentedFields level rest

end

def write (value : Json) : String := String.ofList value.compact

def writeIndented (value : Json) : String := String.ofList (value.indented 0)

end VendorScreen.Json
