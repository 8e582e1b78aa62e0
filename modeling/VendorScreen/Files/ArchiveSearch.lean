import VendorScreen.Files.IgnoreRules
import VendorScreen.Files.Tree

namespace VendorScreen.Files

/-!
# Searching for archives

Archives are found by their extension in a directory and all directories below it. Links to files
count as files, and links to directories are not entered. The rules that each directory on the way
holds leave entries out, and so do those of the directories above the first one.
-/

def archiveExtension : String := "apk"

/-- The name of the files that hold ignore rules. -/
def rulesName : String := ".ignore"

/-! ## Rules on the way -/

/-- Drops one dot with its slash from the front of a path. -/
def withoutDot : List Char → List Char
  | '.' :: '/' :: rest => rest
  | path => path

/-- What follows `front` in a path, or the whole path if it does not begin so. -/
def behind (front path : List Char) : List Char := (front.isPrefixOf? path).getD path

/-- A path that stands for the current directory, written with dots and slashes alone. -/
def isHere (path : List Char) : Bool := Path.backward (String.ofList path) = ['.']

/-- Rules, and the path of the directory that holds them. -/
structure PlacedRules where
  rules : IgnoreRules
  place : List Char

namespace PlacedRules

/-- The rules in a directory. One dot with its slash is dropped from the front of its path. -/
def ofDirectory (rules : IgnoreRules) (directory : String) : PlacedRules :=
  ⟨rules, withoutDot directory.toList⟩

/-- A path as it is seen from the directory with the rules. Paths are compared as they are written:
one that does not begin with the path of the directory is left as it is. -/
def seen (r : PlacedRules) (path : List Char) : List Char :=
  let path := withoutDot path
  if isHere r.place || !path.contains '/' then path
  else
    match r.place.isPrefixOf? path with
    | none => path
    | some rest => behind ['/'] rest

def verdict? (r : PlacedRules) (path : List Char) (isDirectory : Bool) : Option Bool :=
  r.rules.verdict? (String.ofList (r.seen path)).toUTF8.data.toList isDirectory

end PlacedRules

/-- The rules that count in a directory, the nearest first. -/
structure RulesInForce where
  /-- The directory where the search began, as it was given. -/
  start : List Char
  /-- The same directory by its names from the root on. -/
  resolved : String
  /-- The rules of the directories from the first one on. -/
  within : List PlacedRules
  /-- The rules of the directories above the first one. -/
  above : List PlacedRules

namespace RulesInForce

/-- A path by its names from the root on, as far as the directory where the search began is written
at its front. -/
def resolve (r : RulesInForce) (path : List Char) : List Char :=
  let below := if isHere r.start then path else behind ['/'] (behind (withoutDot r.start) path)
  (Path.join r.resolved (String.ofList below)).toList

/-- The rules of the nearest directory that has a matching one decide. -/
def isIgnored (r : RulesInForce) (path : String) (isDirectory : Bool) : Bool :=
  let path := withoutDot path.toList
  let verdict? := (r.within.findSome? fun rules ↦ rules.verdict? path isDirectory).or
    (r.above.findSome? fun rules ↦ rules.verdict? (r.resolve path) isDirectory)
  verdict?.getD false

/-- The rules that count one step further down, in a directory with rules of its own. -/
def enter (r : RulesInForce) (rules : IgnoreRules) (directory : String) : RulesInForce :=
  { r with within := .ofDirectory rules directory :: r.within }

end RulesInForce

namespace Tree

def rulesIn (t : Tree) (directory : String) : IgnoreRules :=
  match t.read (Path.join directory rulesName) with
  | .ok bytes => .ofBytes bytes
  | .error _ => []

/-- The directory with the given names from the root on, the last one first. -/
def directoryNamed (names : List String) : String := "/" ++ "/".intercalate names.reverse

/-- The rules of the directories above the one with the given names. -/
def rulesAbove (t : Tree) : List String → List PlacedRules
  | [] => []
  | _ :: names =>
      let parent := directoryNamed names
      .ofDirectory (t.rulesIn parent) parent :: t.rulesAbove names

/-- The rules that count in the directory where a search begins. -/
def rulesAtStart (t : Tree) (directory : String) (names : List String) : RulesInForce :=
  { start := directory.toList, resolved := directoryNamed names
    within := [.ofDirectory (t.rulesIn directory) directory], above := t.rulesAbove names }

/-! ## The search -/

/-- An archive with the names that lead to it from the directory where the search began. -/
structure Found where
  names : List String
  path : String
deriving DecidableEq, Repr

mutual

/-- The archives among some entries of a directory and below them. -/
def searchEntries (t : Tree) (rules : RulesInForce) (directory : String) (names : List String) :
    Entries → List Found
  | [] => []
  | (name, node) :: rest =>
      t.searchNode rules (Path.join directory name) (names ++ [name]) node
        ++ t.searchEntries rules directory names rest

/-- The archives at an entry, which lies at `path`, and below it. -/
def searchNode (t : Tree) (rules : RulesInForce) (path : String) (names : List String) :
    Node → List Found
  | .directory entries =>
      if rules.isIgnored path true then []
      else t.searchEntries (rules.enter (t.rulesIn path) path) path names entries
  | .file _ _ => t.searchFile rules path names
  | .link _ => t.searchFile rules path names

/-- The entry itself, if it is an archive. -/
def searchFile (t : Tree) (rules : RulesInForce) (path : String) (names : List String) :
    List Found :=
  if !rules.isIgnored path false && t.isFile path
    && Path.extension? path = some archiveExtension then [⟨names, path⟩]
  else []

end

/-- A path that stands for the standard input, which is no place to search. -/
def isDash (path : String) : Bool := Path.backward path = ['-']

/-- The archives in a directory and below it, in the order of their names from the outermost on.
There is no answer for what is no directory. -/
def archivesIn? (t : Tree) (directory : String) : Option (List String) :=
  match t.directory? directory with
  | none => none
  | some stack =>
      if isDash directory then some []
      else
        let rules := t.rulesAtStart directory (stack.map Prod.fst)
        let found := t.searchEntries rules directory [] (entriesAt t.root stack)
        some ((found.mergeSort fun a b ↦ Path.namesLe a.names b.names).map Found.path)

/-- What is said when there is no directory to search. -/
def searchFailure (directory : String) : String :=
  "Archive directory does not exist: " ++ directory

end Tree

/-- The identifier that the name of an archive gives its package. -/
def identifierOf? (path : String) : Option String :=
  (Path.stem? path).filter fun stem ↦
    !stem.isEmpty && !stem.toList.contains '/' && !stem.toList.contains '\\'

end VendorScreen.Files
