import VendorScreen.Files.Glob
import VendorScreen.Text.Blank

namespace VendorScreen.Files

/-!
# Ignore rules

A directory can hold a file of rules, one a line, that leave entries below it out of searches. The
last rule that matches an entry decides. A rule with an exclamation mark takes the entry back in,
and a rule with a slash at its end is about directories only.
-/

structure IgnoreRule where
  glob : Glob
  isException : Bool
  onlyDirectories : Bool

abbrev IgnoreRules := List IgnoreRule

namespace IgnoreRule

def endsWith (ending cs : List Char) : Bool := ending.isSuffixOf cs

/-- Cuts the white space at the end, unless a backslash keeps its last blank. -/
def withoutBlanks (line : List Char) : List Char :=
  if endsWith ['\\', ' '] line then line else Text.trimRight line

/-- Whether the rule is an exception, whether it is tied to its directory, and what it matches. -/
def readMarks : List Char → Bool × Bool × List Char
  | '\\' :: '!' :: rest => (false, false, '!' :: rest)
  | '\\' :: '#' :: rest => (false, false, '#' :: rest)
  | '!' :: '/' :: rest => (true, true, rest)
  | '!' :: rest => (true, false, rest)
  | '/' :: rest => (false, true, rest)
  | rest => (false, false, rest)

/-- Whether the rule is about directories only, and what it matches. -/
def readEnding (body : List Char) : Bool × List Char :=
  if endsWith ['\\', '/'] body then (true, body.dropLast.dropLast)
  else if endsWith ['/'] body then (true, body.dropLast)
  else (false, body)

/-- A rule without a slash is about entries in all directories below. -/
def spread (isTied : Bool) (body : List Char) : List Char :=
  if isTied || body.contains '/' || body = ['*', '*'] then body else "**/".toList ++ body

/-- What lies inside a directory is matched without the directory itself. -/
def inside (body : List Char) : List Char :=
  if endsWith "/**".toList body then body ++ "/*".toList else body

/-- The rule in a line. Comments, blank lines and lines that are no globs hold none. -/
def ofLine? (line : List Char) : Option IgnoreRule :=
  let line := if line.head? = some '#' then [] else withoutBlanks line
  if line = [] then none
  else
    let (isException, isTied, body) := readMarks line
    let (onlyDirectories, body) := readEnding body
    (Glob.read? (inside (spread isTied body))).map fun glob ↦
      { glob, isException, onlyDirectories }

end IgnoreRule

namespace IgnoreRules

/-- The lines of a file, without the line feeds that end them and the carriage returns before those.
`line` holds the line under way, the last byte first. -/
def lines (line : List UInt8) : List UInt8 → List (List UInt8)
  | [] => if line = [] then [] else [line.reverse]
  | b :: rest =>
      if b = 0x0a then
        let line := if line.head? = some 0x0d then line.tail else line
        line.reverse :: lines [] rest
      else lines (b :: line) rest

/-- The lines up to the first one that is not UTF-8. -/
def texts : List (List UInt8) → List (List Char)
  | [] => []
  | line :: rest =>
      match String.fromUTF8? ⟨line.toArray⟩ with
      | none => []
      | some text => text.toList :: texts rest

/-- Drops byte order marks from the front of the first line. -/
def withoutMark : List (List Char) → List (List Char)
  | [] => []
  | line :: rest => line.dropWhile (· = '\ufeff') :: rest

/-- The rules in a file. A file with a rule that nests too deep holds none. -/
def ofBytes (b : ByteArray) : IgnoreRules :=
  let rules := (withoutMark (texts (lines [] b.data.toList))).filterMap IgnoreRule.ofLine?
  if rules.any fun rule ↦ rule.glob.isTooDeep then [] else rules

/-- Whether the entry is ignored, as far as some rule matches it. -/
def verdict? (rules : IgnoreRules) (path : List UInt8) (isDirectory : Bool) : Option Bool :=
  let matching := rules.filter fun rule ↦
    (isDirectory || !rule.onlyDirectories) && rule.glob.isMatch path
  matching.getLast?.map fun rule ↦ !rule.isException

end IgnoreRules

end VendorScreen.Files
