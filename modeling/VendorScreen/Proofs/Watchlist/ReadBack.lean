import Mathlib
import VendorScreen.Watchlist

namespace VendorScreen.Watchlist

/-!
# Reading a pattern back

The stems of a pattern are escaped before bars are put between them. Whatever they hold, the bare
bars are then those between the stems, so a pattern tells which list it was written from.
-/

/-- The pieces between the bars of a text. A backslash and the character behind it belong together,
so a bar behind one is not between pieces. -/
def splitBars : List Char → List (List Char)
  | [] => [[]]
  | '|' :: rest => [] :: splitBars rest
  | '\\' :: c :: rest => (splitBars rest).modifyHead fun piece => '\\' :: c :: piece
  | c :: rest => (splitBars rest).modifyHead fun piece => c :: piece

/-- The text in which a backslash and the character behind it stand for that character. -/
def unescape : List Char → List Char
  | [] => []
  | '\\' :: c :: rest => c :: unescape rest
  | c :: rest => c :: unescape rest

/-- What stands inside the frame that every pattern has. -/
def unframed? (source : List Char) : Option (List Char) := do
  let rest ← "^(?:".toList.isPrefixOf? source
  ").*$".toList.isSuffixOf? rest

/-- The stems that a pattern was written from. -/
def readPattern? (source : String) : Option (List String) :=
  (unframed? source.toList).map fun body =>
    (splitBars body).map fun piece => String.ofList (unescape piece)

section pieces

variable {c : Char} {stem rest : List Char}

theorem splitBars_bar (rest : List Char) : splitBars ('|' :: rest) = [] :: splitBars rest := rfl

theorem splitBars_escaped (c : Char) (rest : List Char) : splitBars ('\\' :: c :: rest) =
    (splitBars rest).modifyHead fun piece => '\\' :: c :: piece := rfl

theorem splitBars_cons_of_ne (hback : c ≠ '\\') (hbar : c ≠ '|') (rest : List Char) :
    splitBars (c :: rest) = (splitBars rest).modifyHead fun piece => c :: piece := by
  rw [splitBars.eq_4]
  · rintro rfl
    exact hbar rfl
  · rintro d rest' rfl
    exact absurd rfl hback

theorem unescape_escaped (c : Char) (rest : List Char) :
    unescape ('\\' :: c :: rest) = c :: unescape rest := rfl

theorem unescape_cons_of_ne (hback : c ≠ '\\') (rest : List Char) :
    unescape (c :: rest) = c :: unescape rest := by
  rw [unescape.eq_3]
  rintro d rest' rfl
  exact absurd rfl hback

theorem escapeStem_cons (c : Char) (stem : List Char) :
    escapeStem (c :: stem) = (if isSpecial c then ['\\', c] else [c]) ++ escapeStem stem := rfl

theorem ne_of_not_isSpecial (h : ¬ isSpecial c = true) : c ≠ '\\' ∧ c ≠ '|' := by
  constructor <;> rintro rfl <;> exact h (by decide)

/-- An escaped stem stays in one piece. -/
theorem splitBars_escapeStem_append (stem rest : List Char) :
    splitBars (escapeStem stem ++ rest) =
      (splitBars rest).modifyHead fun piece => escapeStem stem ++ piece := by
  induction stem with
  | nil =>
      change splitBars rest = (splitBars rest).modifyHead id
      rw [List.modifyHead_id, id]
  | cons c stem ih =>
      rw [escapeStem_cons]
      split_ifs with hspecial
      · simp only [List.cons_append, List.nil_append, splitBars_escaped, ih,
          List.modifyHead_modifyHead, Function.comp_def]
      · obtain ⟨hback, hbar⟩ := ne_of_not_isSpecial hspecial
        simp only [List.cons_append, List.nil_append, splitBars_cons_of_ne hback hbar, ih,
          List.modifyHead_modifyHead, Function.comp_def]

theorem unescape_escapeStem (stem : List Char) : unescape (escapeStem stem) = stem := by
  induction stem with
  | nil => rfl
  | cons c stem ih =>
      rw [escapeStem_cons]
      split_ifs with hspecial
      · simp only [List.cons_append, List.nil_append, unescape_escaped, ih]
      · simp only [List.cons_append, List.nil_append,
          unescape_cons_of_ne (ne_of_not_isSpecial hspecial).1, ih]

end pieces

section lists

variable {flagged other : List String}

theorem splitBars_alternation (flagged : List String) :
    splitBars (alternation flagged) =
      (stems flagged).map fun stem => escapeStem stem.toList := by
  induction flagged with
  | nil => rfl
  | cons stem rest ih =>
      cases rest with
      | nil =>
          have h := splitBars_escapeStem_append stem.toList []
          rw [List.append_nil] at h
          simpa [alternation, stems, splitBars] using h
      | cons next rest =>
          have halternation : alternation (stem :: next :: rest) =
              escapeStem stem.toList ++ '|' :: alternation (next :: rest) := rfl
          rw [halternation, splitBars_escapeStem_append, splitBars_bar, ih]
          simp [stems]

theorem toList_pattern (flagged : List String) : (pattern flagged).toList =
    "^(?:".toList ++ (alternation flagged ++ ").*$".toList) := by
  rw [← List.append_assoc]
  exact String.toList_ofList

theorem unframed?_pattern (flagged : List String) :
    unframed? (pattern flagged).toList = some (alternation flagged) := by
  have hfront : "^(?:".toList.isPrefixOf? (pattern flagged).toList =
      some (alternation flagged ++ ").*$".toList) :=
    List.isPrefixOf?_eq_some_iff_append_eq.mpr (toList_pattern flagged).symm
  have hend : ").*$".toList.isSuffixOf? (alternation flagged ++ ").*$".toList) =
      some (alternation flagged) :=
    List.isSuffixOf?_eq_some_iff_append_eq.mpr rfl
  unfold unframed?
  rw [hfront, Option.bind_eq_bind, Option.bind_some, hend]

/-- A pattern gives back its stems, in order. -/
theorem readPattern?_pattern (flagged : List String) :
    readPattern? (pattern flagged) = some (stems flagged) := by
  simp only [readPattern?, unframed?_pattern, splitBars_alternation, Option.map_some, List.map_map,
    Function.comp_def, unescape_escapeStem, String.ofList_toList, List.map_id']

/-- Two patterns are the same exactly if their stems are. -/
theorem pattern_eq_pattern_iff : pattern flagged = pattern other ↔ stems flagged = stems other := by
  constructor
  · intro h
    have hread := readPattern?_pattern flagged
    rw [h, readPattern?_pattern other] at hread
    exact (Option.some.inj hread).symm
  · intro h
    have hstems (l : List String) : alternation l = alternation (stems l) := by
      cases l <;> rfl
    unfold pattern
    rw [hstems flagged, h, ← hstems other]

/-- A pattern that is written from a list which is not empty gives the list back, so no stem can
add a bar or end another stem. The pattern of the empty list is that of the empty stem. -/
theorem pattern_reads_back (flagged : List String) :
    (flagged ≠ [] → readPattern? (pattern flagged) = some flagged) ∧
    (flagged ≠ [] → ∀ other ≠ [], pattern flagged = pattern other → flagged = other) ∧
    (pattern flagged = pattern [] ↔ flagged = [] ∨ flagged = [""]) := by
  refine ⟨?_, ?_, ?_⟩
  · intro h
    rw [readPattern?_pattern, stems_of_ne_nil h]
  · intro h other hother heq
    rwa [pattern_eq_pattern_iff, stems_of_ne_nil h, stems_of_ne_nil hother] at heq
  · rw [pattern_eq_pattern_iff]
    cases flagged with
    | nil => simp
    | cons stem rest => simp [stems]

/-- Stems with backslashes, bars and the frame in them. -/
example : readPattern? (pattern ["a\\", "|", ").*$", "", "\\|b"]) =
    some ["a\\", "|", ").*$", "", "\\|b"] := by decide +kernel

end lists

end VendorScreen.Watchlist
