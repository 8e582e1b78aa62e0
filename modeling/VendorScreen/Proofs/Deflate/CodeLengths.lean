import VendorScreen.Proofs.Deflate.Tokens

namespace VendorScreen.Deflate

/-!
# Blocks that bring their own codes

The lengths of the words of both codes stand in one row at the head of the block, in runs that are
themselves coded, and the lengths of the words for that come first of all. Reading the head gives the
two codes back.
-/

/-- The next lengths in a row. -/
inductive LengthRun where
  | single (length : Fin 16)
  /-- The length before, 3 to 6 times more. -/
  | again (extra : Fin 4)
  /-- No words for 3 to 10 symbols. -/
  | zeros (extra : Fin 8)
  /-- No words for 11 to 138 symbols. -/
  | manyZeros (extra : Fin 128)
deriving DecidableEq, Repr

namespace LengthRun

def symbol : LengthRun → ℕ
  | single length => length
  | again _ => 16
  | zeros _ => 17
  | manyZeros _ => 18

/-- The bits behind the word for the symbol. -/
def extraBits : LengthRun → List Bool
  | single _ => []
  | again extra => lowBits extra 2
  | zeros extra => lowBits extra 3
  | manyZeros extra => lowBits extra 7

def onto? (lengths : List ℕ) : LengthRun → Option (List ℕ)
  | single length => some (lengths ++ [length.val])
  | again extra => lengths.getLast?.map fun last => lengths ++ List.replicate (3 + extra) last
  | zeros extra => some (lengths ++ List.replicate (3 + extra) 0)
  | manyZeros extra => some (lengths ++ List.replicate (11 + extra) 0)

def bits (runLengths : List ℕ) (run : LengthRun) : List Bool :=
  codeWord runLengths run.symbol ++ run.extraBits

variable {run : LengthRun} {lengths next target : List ℕ}

theorem length_lt_of_onto? (h : run.onto? lengths = some next) :
    lengths.length < next.length := by
  cases run with
  | again extra =>
      obtain ⟨last, -, rfl⟩ := Option.map_eq_some_iff.mp h
      simp
  | single length => cases h; simp
  | zeros extra => cases h; simp
  | manyZeros extra => cases h; simp

theorem length_le_of_foldlM {runs : List LengthRun}
    (h : runs.foldlM onto? lengths = some target) : lengths.length ≤ target.length := by
  induction runs generalizing lengths with
  | nil =>
      obtain rfl : lengths = target := by simpa using h
      exact le_rfl
  | cons run runs ih =>
      rw [List.foldlM_cons, Option.bind_eq_bind, Option.bind_eq_some_iff] at h
      obtain ⟨next, hrun, hrest⟩ := h
      exact (length_lt_of_onto? hrun).le.trans (ih hrest)

end LengthRun

section reading

variable {runLengths lengths next target : List ℕ} {run : LengthRun} {c : BitCursor} {total : ℕ}

theorem repeatCount_of_shows {width base value n : ℕ} (hn : n < 2 ^ width)
    (h : c.Shows (lowBits n width)) :
    repeatCount width base value c = .ok (base + n, value, c.advance (lowBits n width).length) := by
  rw [repeatCount, BitCursor.bits?_of_shows hn h, length_lowBits]

/-- A run that is not a single length is read as a repetition. -/
theorem repetition_of_shows (hrun : run.onto? lengths = some next) (hlong : ¬ run.symbol < 16)
    (h : c.Shows run.extraBits) : ∃ count value,
      repetition run.symbol lengths.toArray c =
        .ok (count, value, c.advance run.extraBits.length) ∧
      next = lengths ++ List.replicate count value := by
  cases run with
  | single length => exact absurd length.isLt hlong
  | again extra =>
      obtain ⟨last, hlast, rfl⟩ := Option.map_eq_some_iff.mp hrun
      refine ⟨3 + extra, last, ?_, rfl⟩
      have hrepetition : repetition (LengthRun.again extra).symbol lengths.toArray c =
          repeatCount 2 3 last c := by
        rw [repetition, LengthRun.symbol, if_pos rfl, List.back?_toArray, hlast]
      rw [hrepetition]
      exact repeatCount_of_shows extra.isLt h
  | zeros extra =>
      cases hrun
      exact ⟨3 + extra, 0, repeatCount_of_shows extra.isLt h, rfl⟩
  | manyZeros extra =>
      cases hrun
      exact ⟨11 + extra, 0, repeatCount_of_shows extra.isLt h, rfl⟩

theorem readLengths_run (hcode : IsCode runLengths) (hrun : run.onto? lengths = some next)
    (hword : 0 < wordLength runLengths run.symbol) (hroom : lengths.length < total)
    (h : c.Shows (run.bits runLengths)) :
    readLengths (.ofLengths runLengths) total lengths.toArray c =
      readLengths (.ofLengths runLengths) total next.toArray
        (c.advance (run.bits runLengths).length) := by
  rw [LengthRun.bits, BitCursor.shows_append] at h
  have hsymbol := hcode.decode_eq hword h.1
  rw [readLengths, if_pos (by simpa using hroom), hsymbol]
  dsimp only
  by_cases hshort : run.symbol < 16
  · rw [if_pos hshort]
    cases run with
    | single length =>
        cases hrun
        simp [LengthRun.bits, LengthRun.extraBits, LengthRun.symbol]
    | again | zeros | manyZeros => simp [LengthRun.symbol] at hshort
  · obtain ⟨count, value, hrepetition, rfl⟩ := repetition_of_shows hrun hshort h.2
    rw [if_neg hshort]
    split
    · rename_i fault hfault
      rw [hrepetition] at hfault
      cases hfault
    · rename_i count' value' rest hrest
      rw [hrepetition, Except.ok.injEq, Prod.mk.injEq, Prod.mk.injEq] at hrest
      obtain ⟨rfl, rfl, rfl⟩ := hrest
      have hnext : lengths.toArray ++ Array.replicate count value =
          (lengths ++ List.replicate count value).toArray := Array.ext' (by simp)
      rw [hnext, BitCursor.advance_advance, LengthRun.bits, List.length_append]

/-- The runs are read to the lengths that they make up. -/
theorem readLengths_of_shows (hcode : IsCode runLengths) {runs : List LengthRun}
    (hruns : runs.foldlM LengthRun.onto? lengths = some target)
    (hwords : ∀ run ∈ runs, 0 < wordLength runLengths run.symbol)
    (h : c.Shows (runs.flatMap (LengthRun.bits runLengths))) :
    readLengths (.ofLengths runLengths) target.length lengths.toArray c =
      .ok (target, c.advance (runs.flatMap (LengthRun.bits runLengths)).length) := by
  induction runs generalizing lengths c with
  | nil =>
      obtain rfl : lengths = target := by simpa using hruns
      rw [readLengths, if_neg (by simp), if_pos (by simp)]
      rfl
  | cons run runs ih =>
      rw [List.foldlM_cons, Option.bind_eq_bind, Option.bind_eq_some_iff] at hruns
      obtain ⟨next, hrun, hrest⟩ := hruns
      obtain ⟨hword, hwords⟩ := List.forall_mem_cons.mp hwords
      rw [List.flatMap_cons, BitCursor.shows_append] at h
      have hroom := (LengthRun.length_lt_of_onto? hrun).trans_le
        (LengthRun.length_le_of_foldlM hrest)
      rw [readLengths_run hcode hrun hword hroom h.1, ih hrest hwords h.2,
        BitCursor.advance_advance, List.flatMap_cons, List.length_append]

theorem readTriples_of_shows {ns : List ℕ} (hns : ∀ n ∈ ns, n < 8)
    (h : c.Shows (ns.flatMap fun n => lowBits n 3)) : readTriples c ns.length =
      .ok (ns, c.advance (ns.flatMap fun n => lowBits n 3).length) := by
  induction ns generalizing c with
  | nil => rfl
  | cons n ns ih =>
      obtain ⟨hn, hns⟩ := List.forall_mem_cons.mp hns
      rw [List.flatMap_cons, BitCursor.shows_append, length_lowBits] at h
      have hbits : c.bits? 3 = some (n, c.advance 3) := BitCursor.bits?_of_shows hn h.1
      rw [List.length_cons, readTriples, hbits]
      dsimp only
      rw [ih hns h.2]
      simp

/-- The lengths that are not listed are zero. -/
theorem orderedLengths_take (hlength : runLengths.length = 19) {listed : ℕ}
    (hrest : ∀ symbol ∈ lengthOrder.drop listed, wordLength runLengths symbol = 0) :
    orderedLengths ((lengthOrder.take listed).map (wordLength runLengths)) = runLengths := by
  apply List.ext_getElem
  · rw [orderedLengths, List.length_map, List.length_range, hlength]
    rfl
  intro symbol _ hsymbol
  have hmem : symbol ∈ lengthOrder := by
    have hall : ∀ s < 19, s ∈ lengthOrder := by decide
    exact hall symbol (hlength ▸ hsymbol)
  have hplace := List.idxOf_lt_length_of_mem hmem
  have hself : lengthOrder[lengthOrder.idxOf symbol]? = some symbol := List.getElem?_idxOf hmem
  have hword : wordLength runLengths symbol = runLengths[symbol] := List.getD_eq_getElem _ _ hsymbol
  rw [← hword]
  simp only [orderedLengths, List.getElem_map, List.getElem_range, List.getD_eq_getElem?_getD,
    List.getElem?_map, List.getElem?_take]
  -- a symbol is listed if its place in the order is
  by_cases hlisted : lengthOrder.idxOf symbol < listed
  · rw [if_pos hlisted, hself]
    rfl
  · rw [if_neg hlisted]
    have hunlisted : (lengthOrder.drop listed)[lengthOrder.idxOf symbol - listed]? = some symbol := by
      rw [List.getElem?_drop, Nat.add_sub_cancel' (Nat.le_of_not_lt hlisted), hself]
    exact (hrest symbol (List.mem_of_getElem? hunlisted)).symm

end reading

/-- What a block with codes of its own begins with. -/
structure CodeHead where
  codes : Codes
  /-- The lengths of the words for the symbols of runs. -/
  runLengths : List ℕ
  /-- How many of those lengths are listed. The others are zero. -/
  listed : ℕ
  runs : List LengthRun
  codes_readable : codes.AreReadable
  literals_ge : 257 ≤ codes.literals.length
  literals_le : codes.literals.length ≤ 286
  distances_ge : 1 ≤ codes.distances.length
  distances_le : codes.distances.length ≤ 30
  runLengths_complete : IsCompleteCode runLengths
  length_runLengths : runLengths.length = 19
  runLength_lt : ∀ length ∈ runLengths, length < 8
  listed_ge : 4 ≤ listed
  listed_le : listed ≤ 19
  unlisted : ∀ symbol ∈ lengthOrder.drop listed, wordLength runLengths symbol = 0
  runs_worded : ∀ run ∈ runs, 0 < wordLength runLengths run.symbol
  runs_eq : runs.foldlM LengthRun.onto? [] = some (codes.literals ++ codes.distances)

namespace CodeHead

variable (head : CodeHead)

def listedLengths : List ℕ := (lengthOrder.take head.listed).map (wordLength head.runLengths)

def bits : List Bool :=
  lowBits (head.codes.literals.length - 257) 5
    ++ (lowBits (head.codes.distances.length - 1) 5
      ++ (lowBits (head.listed - 4) 4
        ++ (head.listedLengths.flatMap (lowBits · 3)
          ++ head.runs.flatMap (LengthRun.bits head.runLengths))))

theorem length_listedLengths : head.listedLengths.length = head.listed := by
  rw [listedLengths, List.length_map, List.length_take]
  exact Nat.min_eq_left head.listed_le

theorem listedLengths_lt {length : ℕ} (h : length ∈ head.listedLengths) : length < 8 := by
  obtain ⟨symbol, -, rfl⟩ := List.mem_map.mp h
  rw [wordLength, List.getD_eq_getElem?_getD]
  cases hlength : head.runLengths[symbol]? with
  | none => decide
  | some length => exact head.runLength_lt length (List.mem_of_getElem? hlength)

theorem ofCompleteOrMinimal_eq {lengths : List ℕ} (h : IsReadable lengths) :
    PrefixCode.ofCompleteOrMinimal lengths = .ok (.ofLengths lengths) :=
  if_pos (h.imp_left fun hcomplete => (isCompleteCode_iff.mp hcomplete).2)

/-- The codes of a block are read from its head. -/
theorem readCodes_of_shows {c : BitCursor} (h : c.Shows head.bits) : readCodes c =
    .ok (.ofLengths head.codes.literals, .ofLengths head.codes.distances,
      c.advance head.bits.length) := by
  have hliterals := head.literals_ge
  have hliterals' := head.literals_le
  have hdistances := head.distances_ge
  have hdistances' := head.distances_le
  have hlisted := head.listed_ge
  have hlisted' := head.listed_le
  simp only [bits, BitCursor.shows_append, length_lowBits] at h
  obtain ⟨hn, hm, hk, htriples, hruns⟩ := h
  have hn := BitCursor.bits?_of_shows (by omega) hn
  have hm := BitCursor.bits?_of_shows (by omega) hm
  have hk := BitCursor.bits?_of_shows (by omega) hk
  have hcount : head.listed - 4 + 4 = head.listedLengths.length := by
    rw [head.length_listedLengths, Nat.sub_add_cancel hlisted]
  have htriples := readTriples_of_shows (fun _ => head.listedLengths_lt) htriples
  have hordered : orderedLengths head.listedLengths = head.runLengths :=
    orderedLengths_take head.length_runLengths head.unlisted
  have hcode : PrefixCode.ofComplete head.runLengths = .ok (.ofLengths head.runLengths) :=
    if_pos (isCompleteCode_iff.mp head.runLengths_complete).2
  have htotal : head.codes.literals.length - 257 + 257 + (head.codes.distances.length - 1 + 1) =
      (head.codes.literals ++ head.codes.distances).length := by
    rw [List.length_append, Nat.sub_add_cancel hliterals, Nat.sub_add_cancel hdistances]
  have hlengths := readLengths_of_shows head.runLengths_complete.isCode head.runs_eq
    head.runs_worded hruns
  have hroom : ¬ (286 < head.codes.literals.length - 257 + 257 ∨
      30 < head.codes.distances.length - 1 + 1) := by omega
  simp only [readCodes, hn, hm, hk, hroom, if_false, bind, Except.bind, hcount, htriples, hordered,
    hcode, htotal, hlengths]
  rw [Nat.sub_add_cancel hliterals, List.drop_left, List.take_left,
    ofCompleteOrMinimal_eq head.codes_readable.1, ofCompleteOrMinimal_eq head.codes_readable.2]
  simp only [pure, Except.pure, bits, BitCursor.advance_advance, List.length_append,
    length_lowBits, Nat.add_assoc]

end CodeHead

end VendorScreen.Deflate
