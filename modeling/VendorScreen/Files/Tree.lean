import VendorScreen.Files.Path

namespace VendorScreen.Files

/-!
# Trees of files

A snapshot of the files that paths lead to. A path is followed step by step from the root or from
the current directory; a link on the way is replaced by the steps of its target.
-/

inductive Node where
  /-- A file with its time of modification, in milliseconds since 1970. -/
  | file (bytes : ByteArray) (modified : Int)
  | link (target : String)
  | directory (entries : List (String × Node))

abbrev Entries := List (String × Node)

/-- The latest time of modification that is kept, which is the last one with a whole number of
seconds in 34 bits counted from `-2 ^ 31`. -/
def latestTime : Int := ((Nat.pow 2 34 - Nat.pow 2 31 - 1) * 1000 : Nat)

/-- A file as it is kept. -/
def Node.kept (bytes : ByteArray) (modified : Int) : Node := .file bytes (min modified latestTime)

inductive FileFault where
  | missing
  | notDirectory
  | isDirectory
  | tooManyLinks
  | nameTooLong
  | endsInside
deriving DecidableEq, Repr

def FileFault.message : FileFault → String
  | missing => "No such file or directory (os error 2)"
  | notDirectory => "Not a directory (os error 20)"
  | isDirectory => "Is a directory (os error 21)"
  | tooManyLinks => "Too many levels of symbolic links (os error 40)"
  | nameTooLong => "File name too long (os error 36)"
  | endsInside => "file name contained an unexpected NUL byte"

/-- A file, or a directory with those above it: their names and entries, the innermost first and the
root left out. -/
inductive Place where
  | file (bytes : ByteArray) (modified : Int)
  | directory (stack : List (String × Entries))

structure Tree where
  root : Entries
  /-- The current directory, as a path from the root. -/
  current : String

namespace Tree

def empty (current : String) : Tree := ⟨[], current⟩

/-- The entries of the innermost directory. -/
def entriesAt (root : Entries) (stack : List (String × Entries)) : Entries :=
  match stack with
  | [] => root
  | (_, entries) :: _ => entries

def maxNameBytes : Nat := 255

def maxPathBytes : Nat := 4095

def maxLinks : Nat := 40

/-- Follows the steps from a directory. -/
def follow (root : Entries) (links : Nat) (stack : List (String × Entries)) :
    List String → Except FileFault Place
  | [] => .ok (.directory stack)
  | step :: rest =>
      if step = "." then follow root links stack rest
      else if step = ".." then follow root links stack.tail rest
      else if maxNameBytes < step.utf8ByteSize then .error .nameTooLong
      else
        match (entriesAt root stack).lookup step with
        | none => .error .missing
        | some (.file bytes modified) =>
            if rest.isEmpty then .ok (.file bytes modified) else .error .notDirectory
        | some (.directory entries) => follow root links ((step, entries) :: stack) rest
        | some (.link target) =>
            match links with
            | 0 => .error .tooManyLinks
            | links + 1 =>
                follow root links (if Path.isAbsolute target then [] else stack)
                  (Path.steps target ++ rest)
termination_by steps => (links, steps.length)

/-- What the path leads to. -/
def find (t : Tree) (path : String) : Except FileFault Place :=
  if path.toList.contains '\x00' then .error .endsInside
  else if path.isEmpty then .error .missing
  else if maxPathBytes < path.utf8ByteSize then .error .nameTooLong
  else follow t.root maxLinks [] (Path.steps (Path.join t.current path))

def read (t : Tree) (path : String) : Except FileFault ByteArray :=
  match t.find path with
  | .ok (.file bytes _) => .ok bytes
  | .ok (.directory _) => .error .isDirectory
  | .error fault => .error fault

def isFile (t : Tree) (path : String) : Bool :=
  match t.find path with
  | .ok (.file _ _) => true
  | _ => false

/-- The directory that the path leads to, with those above it. -/
def directory? (t : Tree) (path : String) : Option (List (String × Entries)) :=
  match t.find path with
  | .ok (.directory stack) => some stack
  | _ => none

def modified? (t : Tree) (path : String) : Option Int :=
  match t.find path with
  | .ok (.file _ modified) => some modified
  | _ => none

/-! ## Building -/

/-- Puts an entry in the place of the one with its name, or at the end. -/
def put (name : String) (node : Node) : Entries → Entries
  | [] => [(name, node)]
  | (other, old) :: rest =>
      if other = name then (name, node) :: rest else (other, old) :: put name node rest

/-- The entries below a name, none if there is no directory. -/
def entriesBelow (entries : Entries) (name : String) : Entries :=
  match entries.lookup name with
  | some (.directory inner) => inner
  | _ => []

/-- Puts a node below the steps, with the directories that lead to it. A directory that is there
already keeps its entries. -/
def insertAt (node : Node) (entries : Entries) : List String → Entries
  | [] => entries
  | [name] =>
      match node with
      | .directory [] => put name (.directory (entriesBelow entries name)) entries
      | node => put name node entries
  | name :: rest => put name (.directory (insertAt node (entriesBelow entries name) rest)) entries

def insert (t : Tree) (path : String) (node : Node) : Tree :=
  { t with root := insertAt node t.root ((Path.steps path).filter (· ≠ ".")) }

end Tree

end VendorScreen.Files
