namespace VendorScreen.Files.Path

/-!
# Paths

Names between slashes. A path keeps the form in which it is written; repeated slashes and dots in it
name nothing, and do not count when its last name or its parent is looked for.
-/

/-- Drops what names nothing from the end of a path, which is given back to front. -/
def dropIdle : List Char → List Char
  | '/' :: c :: rest => dropIdle (c :: rest)
  | '.' :: '/' :: rest => dropIdle ('/' :: rest)
  | path => path

/-- A path back to front, as far as it names something. -/
def backward (path : String) : List Char := dropIdle path.toList.reverse

/-- The last name. The root has none, and neither have paths that end at the current directory or at
the parent of another. -/
def name? (path : String) : Option String :=
  let last := ((backward path).takeWhile (· ≠ '/')).reverse
  if last = [] ∨ last = ['.'] ∨ last = ['.', '.'] then none else some (String.ofList last)

/-- The path without its last part. The empty path and the root have no parent. -/
def parent? (path : String) : Option String :=
  let back := backward path
  if back = [] ∨ back = ['/'] then none
  else some (String.ofList (dropIdle (back.dropWhile (· ≠ '/'))).reverse)

/-- A name up to its last dot, and what follows that dot. A dot in front does not count. -/
def splitName (name : String) : String × Option String :=
  let back := name.toList.reverse
  match back.dropWhile (· ≠ '.') with
  | '.' :: c :: stem =>
      (String.ofList (c :: stem).reverse, some (String.ofList (back.takeWhile (· ≠ '.')).reverse))
  | _ => (name, none)

def stem? (path : String) : Option String := (name? path).map fun name => (splitName name).1

def extension? (path : String) : Option String := (name? path).bind fun name => (splitName name).2

def isAbsolute (path : String) : Bool := path.toList.head? = some '/'

/-- The path that `path` means where `base` is the current directory. -/
def join (base path : String) : String :=
  if isAbsolute path then path
  else
    match base.toList.getLast? with
    | none => path
    | some '/' => base ++ path
    | some _ => base ++ "/" ++ path

/-- The pieces between slashes, empty ones included. -/
def pieces : List Char → List (List Char)
  | [] => [[]]
  | c :: rest =>
      if c = '/' then [] :: pieces rest
      else
        match pieces rest with
        | [] => [[c]]
        | piece :: others => (c :: piece) :: others

/-- The steps from one directory to the next. A slash at the end asks for a directory, as a dot
does. -/
def steps (path : String) : List String :=
  let named := (pieces path.toList).filter (· ≠ [])
  let steps := named.map String.ofList
  if path.toList.getLast? = some '/' then steps ++ ["."] else steps

/-! ## Order -/

/-- Texts come in the order of their code points, the shorter one first. -/
def textLe : List Char → List Char → Bool
  | [], _ => true
  | _ :: _, [] => false
  | a :: s, b :: t => if a = b then textLe s t else a.toNat < b.toNat

/-- Paths are compared name by name, the shorter one first. -/
def namesLe : List String → List String → Bool
  | [], _ => true
  | _ :: _, [] => false
  | a :: s, b :: t => if a = b then namesLe s t else textLe a.toList b.toList

end VendorScreen.Files.Path
