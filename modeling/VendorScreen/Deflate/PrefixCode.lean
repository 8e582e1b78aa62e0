import VendorScreen.Deflate.BitCursor

namespace VendorScreen.Deflate

/-!
# Prefix codes

A code is given by the length of each symbol's word; the words themselves follow in order of length,
then of symbol. The words are kept in a binary tree, and decoding walks down it bit by bit.
-/

/-- Why compressed data cannot be read on. -/
inductive Fault where
  /-- The data contradict the format. -/
  | corrupt
  /-- The data end too early. -/
  | incomplete
deriving DecidableEq, Repr

/-- A set of code words. -/
inductive WordTree where
  | unassigned
  | symbol (value : Nat)
  | branch (zero one : WordTree)
deriving DecidableEq, Repr

namespace WordTree

/-- Gives `word` the meaning `value`. -/
def assign (value : Nat) : List Bool → WordTree → WordTree
  | [], _ => symbol value
  | false :: word, branch zero one => branch (assign value word zero) one
  | true :: word, branch zero one => branch zero (assign value word one)
  | false :: word, _ => branch (assign value word unassigned) unassigned
  | true :: word, _ => branch unassigned (assign value word unassigned)

/-- Reads the word at the cursor. Bits that begin no word are a contradiction at once. -/
def decode (c : BitCursor) : WordTree → Except Fault (Nat × BitCursor)
  | unassigned => .error .corrupt
  | symbol value => .ok (value, c)
  | branch zero one =>
      match c.next? with
      | none => .error .incomplete
      | some (false, rest) => decode rest zero
      | some (true, rest) => decode rest one

theorem remaining_le_of_decode {c c' : BitCursor} {t : WordTree} {value : Nat}
    (h : t.decode c = .ok (value, c')) : c'.remaining ≤ c.remaining := by
  induction t generalizing c with
  | unassigned => simp [decode] at h
  | symbol v =>
      simp only [decode, Except.ok.injEq, Prod.mk.injEq] at h
      exact h.2 ▸ Nat.le_refl _
  | branch zero one ihz iho =>
      simp only [decode] at h
      split at h
      · simp at h
      · next hn => exact Nat.le_trans (ihz h) (Nat.le_of_lt (BitCursor.remaining_lt_of_next? hn))
      · next hn => exact Nat.le_trans (iho h) (Nat.le_of_lt (BitCursor.remaining_lt_of_next? hn))

end WordTree

/-- A prefix code without the empty word: the words that begin with each bit. -/
structure PrefixCode where
  zero : WordTree
  one : WordTree
deriving DecidableEq, Repr

namespace PrefixCode

def longest : Nat := 15

/-- The `length` lowest bits of `n`, the highest first. -/
def wordBits (n : Nat) : Nat → List Bool
  | 0 => []
  | length + 1 => n.testBit length :: wordBits n length

/-- The symbols with words of the given length, in ascending order. -/
def symbolsOfLength (lengths : List Nat) (length : Nat) : List Nat :=
  (List.range lengths.length).filter fun symbol => lengths.getD symbol 0 = length

/-- Numbers `symbols` consecutively from `word` on. -/
def numbered (word length : Nat) : List Nat → List (Nat × List Bool)
  | [] => []
  | symbol :: rest => (symbol, wordBits word length) :: numbered (word + 1) length rest

/-- The words of length `length` and above, the shortest first. `word` is the first number free at
this length; one bit more doubles it. -/
def wordsFrom (lengths : List Nat) (word length : Nat) : Nat → List (Nat × List Bool)
  | 0 => []
  | span + 1 =>
      let symbols := symbolsOfLength lengths length
      numbered word length symbols ++
        wordsFrom lengths (2 * (word + symbols.length)) (length + 1) span

/-- The canonical code words for the given lengths. Length `0` means that a symbol has none. -/
def words (lengths : List Nat) : List (Nat × List Bool) :=
  wordsFrom lengths 0 1 longest

def assignWord (code : PrefixCode) : Nat × List Bool → PrefixCode
  | (_, []) => code
  | (symbol, false :: word) => { code with zero := code.zero.assign symbol word }
  | (symbol, true :: word) => { code with one := code.one.assign symbol word }

/-- The canonical code with the given lengths. -/
def ofLengths (lengths : List Nat) : PrefixCode :=
  (words lengths).foldl assignWord ⟨.unassigned, .unassigned⟩

/-- How much of the space of words of length 15 a word of the given length takes up. -/
def share (length : Nat) : Nat := if length = 0 then 0 else Nat.pow 2 (longest - length)

/-- How much of that space the given lengths take up. -/
def occupied : List Nat → Nat
  | [] => 0
  | length :: lengths => share length + occupied lengths

/-- The lengths of the words that there are. -/
def wordLengths (lengths : List Nat) : List Nat := lengths.filter fun length => length ≠ 0

/-- The words fill the whole space, so every sequence of bits can be decoded. -/
def IsComplete (lengths : List Nat) : Prop := occupied lengths = Nat.pow 2 longest

instance (lengths : List Nat) : Decidable (IsComplete lengths) := by
  unfold IsComplete; infer_instance

/-- The code with the given lengths if it is complete. -/
def ofComplete (lengths : List Nat) : Except Fault PrefixCode :=
  if IsComplete lengths then .ok (ofLengths lengths) else .error .corrupt

/-- There is no word, or a single one of one bit. -/
def IsMinimal (lengths : List Nat) : Prop := wordLengths lengths = [] ∨ wordLengths lengths = [1]

instance (lengths : List Nat) : Decidable (IsMinimal lengths) := by
  unfold IsMinimal; infer_instance

/-- The code with the given lengths if it is complete or minimal. -/
def ofCompleteOrMinimal (lengths : List Nat) : Except Fault PrefixCode :=
  if IsComplete lengths ∨ IsMinimal lengths then .ok (ofLengths lengths)
  else .error .corrupt

/-- Reads the word at the cursor. -/
def decode (code : PrefixCode) (c : BitCursor) : Except Fault (Nat × BitCursor) :=
  match c.next? with
  | none => .error .incomplete
  | some (false, rest) => code.zero.decode rest
  | some (true, rest) => code.one.decode rest

theorem remaining_lt_of_decode {code : PrefixCode} {c c' : BitCursor} {value : Nat}
    (h : code.decode c = .ok (value, c')) : c'.remaining < c.remaining := by
  unfold decode at h
  split at h
  · simp at h
  · next hn =>
      exact Nat.lt_of_le_of_lt (WordTree.remaining_le_of_decode h)
        (BitCursor.remaining_lt_of_next? hn)
  · next hn =>
      exact Nat.lt_of_le_of_lt (WordTree.remaining_le_of_decode h)
        (BitCursor.remaining_lt_of_next? hn)

end PrefixCode

end VendorScreen.Deflate
