import VendorScreen.Text.Unprintable
import VendorScreen.Text.GraphemeExtend

namespace VendorScreen.Text

/-!
# Quoted text

Names from a hostile archive are shown between quotation marks, with everything escaped that a
terminal would not print as itself. A quoted name therefore holds no control character.
-/

/-- The code point in lower-case hexadecimal, without leading zeros. -/
def hexDigits (n : Nat) : List Char := Nat.toDigits 16 n

/-- Letters of Hangul that only keep a place and show nothing. -/
def isFiller (c : Char) : Bool :=
  c = '\u115f' || c = '\u1160' || c = '\u3164' || c = '\uffa0'

/-- The sound marks of halfwidth Katakana. They extend the letter before them, but stand beside it
like letters. -/
def isSoundMark (c : Char) : Bool := c = '\uff9e' || c = '\uff9f'

/-- A terminal would not show the character, or not as one of its own. -/
def isHidden (c : Char) : Bool :=
  isUnprintable c || isFiller c || (isGraphemeExtend c && !isSoundMark c)

/-- A character of a quoted text: itself, or its escape. -/
def escape (c : Char) : List Char :=
  if c = '"' then ['\\', '"']
  else if c = '\\' then ['\\', '\\']
  else if c = '\x00' then ['\\', '0']
  else if c = '\t' then ['\\', 't']
  else if c = '\r' then ['\\', 'r']
  else if c = '\n' then ['\\', 'n']
  else if isHidden c then
    ['\\', 'u', '\x7b'] ++ hexDigits c.toNat ++ ['\x7d']
  else [c]

/-- The text between quotation marks, escaped. -/
def quote (s : String) : String :=
  String.ofList ('"' :: s.toList.flatMap escape ++ ['"'])

end VendorScreen.Text
