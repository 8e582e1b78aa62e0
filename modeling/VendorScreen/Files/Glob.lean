namespace VendorScreen.Files

/-!
# Globs

A glob is matched against the bytes of a path between two directories. A question mark stands for
one byte and a star for any number of them, a slash excepted; two stars reach across slashes. Sets
of characters stand in brackets and alternatives in braces.
-/

inductive GlobPart where
  | literal (c : Char)
  | anyByte
  | anyBytes
  /-- Two stars at the front, with the slash behind them. -/
  | anyFront
  /-- Two stars with the slashes around them. -/
  | anyMiddle
  /-- Two stars at the end, with the slash before them. -/
  | anyBack
  | set (negated : Bool) (ranges : List (Char × Char))
  | alternatives (branches : List (List GlobPart))

abbrev Glob := List GlobPart

namespace Glob

/-! ## Reading -/

/-- What a bracket opens. -/
inductive SetReading where
  | unclosed
  | invalid
  | closed (ranges : List (Char × Char)) (rest : List Char)

/-- Extends the last range up to `c`. -/
def extendLast? (c : Char) : List (Char × Char) → Option (List (Char × Char))
  | [] => some []
  | (low, _) :: ranges => if c < low then none else some ((low, c) :: ranges)

/-- Reads a set up to its closing bracket. `ranges` holds what has been read, the last one first. A
closing bracket or a dash that comes first stands for itself, and so does a dash that comes last. -/
def readSet (ranges : List (Char × Char)) (isFirst afterDash : Bool) : List Char → SetReading
  | [] => .unclosed
  | c :: rest =>
      if c = ']' ∧ isFirst = false then
        .closed (if afterDash then ('-', '-') :: ranges else ranges).reverse rest
      else if c = '-' ∧ isFirst = false ∧ afterDash = false then readSet ranges false true rest
      else if afterDash then
        match extendLast? c ranges with
        | none => .invalid
        | some ranges => readSet ranges false false rest
      else readSet ((c, c) :: ranges) false false rest

theorem length_lt_of_readSet {ranges found : List (Char × Char)} {isFirst afterDash : Bool}
    {cs rest : List Char} (h : readSet ranges isFirst afterDash cs = .closed found rest) :
    rest.length < cs.length := by
  fun_induction readSet ranges isFirst afterDash cs <;> simp_all <;> omega

/-- Whether a set is negated, and where its members begin. -/
def readNegation : List Char → Bool × List Char
  | c :: rest => if c = '!' ∨ c = '^' then (true, rest) else (false, c :: rest)
  | [] => (false, [])

theorem length_readNegation_le (cs : List Char) : (readNegation cs).2.length ≤ cs.length := by
  unfold readNegation
  split
  · split <;> simp
  · simp

/-- A glob under way. -/
structure Draft where
  /-- The parts of the branch under way, the last one first. -/
  parts : List GlobPart
  /-- For each open brace, the parts before it and the branches complete within it, both the last
  one first. -/
  braces : List (List GlobPart × List (List GlobPart))
  /-- A bracket without an end was met. From then on brackets stand for themselves. -/
  plainBrackets : Bool

namespace Draft

def push (d : Draft) (part : GlobPart) : Draft := { d with parts := part :: d.parts }

def openBrace (d : Draft) : Draft := { d with parts := [], braces := (d.parts, []) :: d.braces }

/-- A comma separates branches within braces and stands for itself elsewhere. -/
def comma (d : Draft) : Draft :=
  match d.braces with
  | [] => d.push (.literal ',')
  | (before, branches) :: outer =>
      { d with parts := [], braces := (before, d.parts.reverse :: branches) :: outer }

def closeBrace? (d : Draft) : Option Draft :=
  match d.braces with
  | [] => none
  | (before, branches) :: outer =>
      let branches := (d.parts.reverse :: branches).reverse
      some { d with parts := .alternatives branches :: before, braces := outer }

/-- Two stars whose slash before them is the last part. -/
def pushAcross (d : Draft) (part : GlobPart) : Draft :=
  match d.parts with
  | .anyFront :: _ => d
  | .anyBack :: _ => d
  | _ :: parts => { d with parts := part :: parts }
  | [] => d.push part

def pushStars (d : Draft) : Draft := (d.push .anyBytes).push .anyBytes

/-- Two stars, given the character before them and what comes after them. Between slashes and at
either end they reach across slashes, elsewhere each stands for itself. -/
def twoStars (d : Draft) (before : Option Char) (rest : List Char) : Draft × List Char :=
  let inBraces := !d.braces.isEmpty
  let follows := before = some '/' || (inBraces && (before = some ',' || before = some '\x7b'))
  if d.parts.isEmpty then
    match rest with
    | [] => (d.push .anyFront, [])
    | '/' :: rest => (d.push .anyFront, rest)
    | rest => (d.pushStars, rest)
  else if !follows then (d.pushStars, rest)
  else
    match rest with
    | [] => (d.pushAcross .anyBack, [])
    | '/' :: rest => (d.pushAcross .anyMiddle, rest)
    | c :: rest =>
        if inBraces && (c = ',' || c = '\x7d') then (d.pushAcross .anyBack, c :: rest)
        else (d.pushStars, c :: rest)

theorem length_twoStars_le (d : Draft) (before : Option Char) (rest : List Char) :
    (d.twoStars before rest).2.length ≤ rest.length := by
  unfold twoStars
  dsimp only
  split
  · split <;> simp
  · split
    · simp
    · split
      · simp
      · simp
      · split <;> simp

/-- The character before what is left, after two stars. -/
def lastAfterStars (rest left : List Char) : Char :=
  if left.length < rest.length then '/' else '*'

end Draft

/-- Reads on after the character `before`. -/
def readOnto? (d : Draft) (before : Option Char) : List Char → Option Glob
  | [] => if d.braces.isEmpty then some d.parts.reverse else none
  | '*' :: '*' :: rest =>
      let after := d.twoStars before rest
      readOnto? after.1 (some (Draft.lastAfterStars rest after.2)) after.2
  | '\\' :: rest =>
      match rest with
      | [] => none
      | c :: rest => readOnto? (d.push (.literal c)) (some c) rest
  | c :: rest =>
      match c with
      | '?' => readOnto? (d.push .anyByte) (some c) rest
      | '*' => readOnto? (d.push .anyBytes) (some c) rest
      | '\x7b' => readOnto? d.openBrace (some c) rest
      | ',' => readOnto? d.comma (some c) rest
      | '\x7d' =>
          match d.closeBrace? with
          | none => none
          | some d => readOnto? d (some c) rest
      | '[' =>
          if d.plainBrackets then readOnto? (d.push (.literal c)) (some c) rest
          else
            match _hs : readSet [] true false (readNegation rest).2 with
            | .unclosed =>
                readOnto? { d.push (.literal c) with plainBrackets := true } (some c) rest
            | .invalid => none
            | .closed ranges left =>
                readOnto? (d.push (.set (readNegation rest).1 ranges)) (some ']') left
      | c => readOnto? (d.push (.literal c)) (some c) rest
termination_by cs => cs.length
decreasing_by
  all_goals simp only [List.length_cons]
  · have := d.length_twoStars_le before rest
    omega
  · omega
  · omega
  · omega
  · omega
  · omega
  · omega
  · omega
  · omega
  · have := length_readNegation_le rest
    have := length_lt_of_readSet _hs
    omega
  · omega

/-- The glob that a text writes. -/
def read? (text : List Char) : Option Glob := readOnto? ⟨[], [], false⟩ none text

mutual

/-- The part writes nothing and matches nothing but the empty path. -/
def isVoidPart : GlobPart → Bool
  | .alternatives branches => allVoid branches
  | _ => false

def isVoid : List GlobPart → Bool
  | [] => true
  | part :: rest => isVoidPart part && isVoid rest

def allVoid : List (List GlobPart) → Bool
  | [] => true
  | branch :: rest => isVoid branch && allVoid rest

end

/-! ## Nesting

A glob is a row of items, and some items hold others: a set its members, two stars the ways in which
they reach across slashes, braces their branches. A row of more than one item is a level of its
own within braces, and so is a choice of more than one branch.
-/

/-- The members of a set, one for each byte and each range. -/
def memberCount : List (Char × Char) → Nat
  | [] => 0
  | (low, high) :: ranges =>
      (if low = high then low.utf8Size else low.utf8Size + high.utf8Size - 1) + memberCount ranges

def itemCount : List GlobPart → Nat
  | [] => 0
  | part :: rest =>
      (match part with
        | .literal c => c.utf8Size
        | .anyBack => 2
        | .alternatives branches => if allVoid branches then 0 else 1
        | _ => 1) + itemCount rest

/-- The branches that write something. -/
def branchCount (branches : List (List GlobPart)) : Nat :=
  (branches.filter fun branch => !isVoid branch).length

mutual

/-- How deep the items of a part nest. -/
def partLevels : GlobPart → Nat
  | .literal _ => 0
  | .anyByte => 1
  | .anyBytes => 2
  | .anyFront => 4
  | .anyMiddle => 4
  | .anyBack => 1
  | .set _ ranges => if memberCount ranges = 1 then 1 else 2
  | .alternatives branches =>
      if allVoid branches then 0
      else branchLevels branches + (if branchCount branches = 1 then 1 else 2)

def rowLevels : List GlobPart → Nat
  | [] => 0
  | part :: rest => max (partLevels part) (rowLevels rest)

def branchLevels : List (List GlobPart) → Nat
  | [] => 0
  | branch :: rest =>
      max (rowLevels branch + (if 1 < itemCount branch then 1 else 0)) (branchLevels rest)

end

/-- How many levels a glob may have, its own row included. -/
def mostLevels : Nat := 250

/-- The glob nests deeper than can be matched. -/
def isTooDeep (g : Glob) : Bool := mostLevels < rowLevels g + 1

/-! ## Matching -/

def isSlash (b : UInt8) : Bool := b = 0x2f

/-- What is left of the path after each way of dropping bytes from its front up to a slash. -/
def afterSlashes : List UInt8 → List (List UInt8)
  | [] => []
  | b :: rest => if isSlash b then rest :: afterSlashes rest else afterSlashes rest

/-- What is left of the path after each way of dropping bytes from its front. -/
def afterAny : List UInt8 → List (List UInt8)
  | [] => [[]]
  | b :: rest => (b :: rest) :: afterAny rest

/-- What is left of the path after each way of dropping bytes other than a slash from its front. -/
def withinName : List UInt8 → List (List UInt8)
  | [] => [[]]
  | b :: rest => if isSlash b then [b :: rest] else (b :: rest) :: withinName rest

def dropBytes (bytes : List UInt8) (path : List UInt8) : List (List UInt8) :=
  match bytes.isPrefixOf? path with
  | none => []
  | some rest => [rest]

/-- A byte is in the range between the last byte of `low` and the first byte of `high`, or is one of
their other bytes. -/
def inRange (b : UInt8) (low high : Char) : Bool :=
  let lows := String.utf8EncodeChar low
  let highs := String.utf8EncodeChar high
  if low = high then lows.contains b
  else
    lows.dropLast.contains b || highs.tail.contains b
      || (lows.getLast?.any (· ≤ b) && highs.head?.any (b ≤ ·))

def inSet (b : UInt8) (negated : Bool) (ranges : List (Char × Char)) : Bool :=
  ranges.any (fun (low, high) => inRange b low high) != negated

mutual

/-- What is left of the path after each way of matching the part at its front. -/
def leftAfterPart (path : List UInt8) : GlobPart → List (List UInt8)
  | .literal c => dropBytes (String.utf8EncodeChar c) path
  | .anyByte =>
      match path with
      | b :: rest => if isSlash b then [] else [rest]
      | [] => []
  | .anyBytes => withinName path
  | .anyFront => path :: afterSlashes path
  | .anyMiddle =>
      match path with
      | b :: rest => if isSlash b then rest :: afterSlashes rest else []
      | [] => []
  | .anyBack =>
      match path with
      | b :: rest => if isSlash b then afterAny rest else []
      | [] => []
  | .set negated ranges =>
      match path with
      | b :: rest => if inSet b negated ranges then [rest] else []
      | [] => []
  | .alternatives branches => if allVoid branches then [path] else leftAfterAny path branches

/-- What is left of some paths after each way of matching the parts at their front. -/
def leftAfter (paths : List (List UInt8)) : List GlobPart → List (List UInt8)
  | [] => paths
  | part :: rest =>
      leftAfter (paths.flatMap fun path => leftAfterPart path part).eraseDups rest

/-- What is left of the path after each way of matching one of the branches. Those that write
nothing do not count beside others. -/
def leftAfterAny (path : List UInt8) : List (List GlobPart) → List (List UInt8)
  | [] => []
  | branch :: rest =>
      if isVoid branch then leftAfterAny path rest
      else leftAfter [path] branch ++ leftAfterAny path rest

end

/-- The glob matches the whole path. Two stars alone match everything. -/
def isMatch (g : Glob) (path : List UInt8) : Bool :=
  match g with
  | [.anyFront] => true
  | parts => (leftAfter [path] parts).contains []

end Glob

end VendorScreen.Files
