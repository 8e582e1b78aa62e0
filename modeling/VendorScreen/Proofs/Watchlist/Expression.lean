import Mathlib
import VendorScreen.Watchlist

namespace VendorScreen.Watchlist

/-!
# What the written pattern matches

A pattern is tied to both ends of a name: one of the stems has to stand at the start, and a row of
characters has to lead from there to the end. Line breaks are not among the characters that such a
row may have. So the pattern finds less than the names that begin with a stem.
-/

/-- Regular expressions as far as patterns use them. -/
inductive Expression where
  | empty
  | char (c : Char)
  | any
  | start
  | stop
  | many (e : Expression)
  | group (e : Expression)
  | seq (first second : Expression)
  | either (first second : Expression)

/-- What is matched can be cut into pieces that are matched one after the other. The texts are what
stands in front of the match, the match, and what stands behind it. -/
inductive Repeats (p : List Char → List Char → List Char → Prop) :
    List Char → List Char → List Char → Prop
  | nil {before after : List Char} : Repeats p before [] after
  | cons {before piece rest after : List Char} (hpiece : p before piece (rest ++ after))
      (hrest : Repeats p (before ++ piece) rest after) : Repeats p before (piece ++ rest) after

namespace Expression

/-- The expression matches the middle one of three texts that make up a name. -/
def Matches : Expression → List Char → List Char → List Char → Prop
  | empty, _, text, _ => text = []
  | char c, _, text, _ => text = [c]
  | any, _, text, _ => ∃ c, c ≠ '\n' ∧ text = [c]
  | start, before, text, _ => before = [] ∧ text = []
  | stop, _, text, after => text = [] ∧ after = []
  | many e, before, text, after => Repeats e.Matches before text after
  | group e, before, text, after => e.Matches before text after
  | seq first second, before, text, after => ∃ l m, text = l ++ m ∧
      first.Matches before l (m ++ after) ∧ second.Matches (before ++ l) m after
  | either first second, before, text, after =>
      first.Matches before text after ∨ second.Matches before text after

/-- There is a match somewhere in the name. -/
def FoundIn (e : Expression) (name : List Char) : Prop :=
  ∃ before text after, name = before ++ (text ++ after) ∧ e.Matches before text after

/-- How the expression is written. -/
def text : Expression → List Char
  | empty => []
  | char c => if isSpecial c then ['\\', c] else [c]
  | any => ['.']
  | start => ['^']
  | stop => ['$']
  | many e => e.text ++ ['*']
  | group e => "(?:".toList ++ e.text ++ [')']
  | seq first second => first.text ++ second.text
  | either first second => first.text ++ '|' :: second.text

def literal : List Char → Expression
  | [] => empty
  | c :: rest => seq (char c) (literal rest)

def oneOf : List String → Expression
  | [] => empty
  | [stem] => literal stem.toList
  | stem :: rest => either (literal stem.toList) (oneOf rest)

/-- One of the stems at the start, and then anything up to the end. -/
def ofStems (flagged : List String) : Expression :=
  seq start (seq (group (oneOf flagged)) (seq (many any) stop))

variable {before text after name stem : List Char} {flagged : List String}

theorem text_literal (stem : List Char) : (literal stem).text = escapeStem stem := by
  induction stem with
  | nil => rfl
  | cons c rest ih =>
      change (char c).text ++ (literal rest).text = _
      rw [ih]
      rfl

theorem text_oneOf (flagged : List String) : (oneOf flagged).text = alternation flagged := by
  induction flagged with
  | nil => rfl
  | cons stem rest ih =>
      cases rest with
      | nil => exact text_literal stem.toList
      | cons next rest =>
          change (literal stem.toList).text ++ '|' :: (oneOf (next :: rest)).text = _
          rw [text_literal, ih]
          rfl

theorem text_ofStems (flagged : List String) :
    (ofStems flagged).text = "^(?:".toList ++ alternation flagged ++ ").*$".toList := by
  have hopen : "^(?:".toList = '^' :: "(?:".toList := rfl
  have hclose : ").*$".toList = [')', '.', '*', '$'] := rfl
  simp only [ofStems, Expression.text, text_oneOf, hopen, hclose, List.append_assoc,
    List.cons_append, List.nil_append]

theorem pattern_eq (flagged : List String) :
    pattern flagged = String.ofList (ofStems flagged).text := by
  rw [text_ofStems]
  rfl

theorem matches_literal_iff : (literal stem).Matches before text after ↔ text = stem := by
  induction stem generalizing before text with
  | nil => rfl
  | cons c rest ih =>
      constructor
      · rintro ⟨l, m, rfl, rfl, hrest⟩
        rw [ih.mp hrest]
        rfl
      · rintro rfl
        exact ⟨[c], rest, rfl, rfl, ih.mpr rfl⟩

theorem matches_oneOf_iff :
    (oneOf flagged).Matches before text after ↔ ∃ stem ∈ stems flagged, text = stem.toList := by
  induction flagged with
  | nil => simp [oneOf, Matches, stems]
  | cons stem rest ih =>
      cases rest with
      | nil => simp [oneOf, matches_literal_iff, stems]
      | cons next rest =>
          change (literal stem.toList).Matches before text after ∨
            (oneOf (next :: rest)).Matches before text after ↔ _
          rw [matches_literal_iff, ih]
          simp [stems]

theorem repeats_any_iff : (many any).Matches before text after ↔ '\n' ∉ text := by
  constructor
  · intro h
    induction h with
    | nil => exact List.not_mem_nil
    | cons hpiece _ ih =>
        obtain ⟨c, hc, rfl⟩ := hpiece
        simp [ih, Ne.symm hc]
  · intro h
    induction text generalizing before with
    | nil => exact .nil
    | cons c rest ih =>
        rw [List.mem_cons, not_or] at h
        exact .cons ⟨c, Ne.symm h.1, rfl⟩ (ih h.2)

/-- The pattern finds a name that begins with a stem and goes on without a line break. -/
theorem foundIn_ofStems_iff : (ofStems flagged).FoundIn name ↔
    ∃ stem ∈ stems flagged, ∃ rest, name = stem.toList ++ rest ∧ '\n' ∉ rest := by
  constructor
  · rintro ⟨before, text, after, rfl, l, m, rfl, ⟨rfl, rfl⟩, stem, m', rfl, hstem, rest, tail, rfl,
      hrest, rfl, rfl⟩
    obtain ⟨s, hs, rfl⟩ := matches_oneOf_iff.mp hstem
    exact ⟨s, hs, rest, by simp, repeats_any_iff.mp hrest⟩
  · rintro ⟨stem, hstem, rest, rfl, hrest⟩
    refine ⟨[], stem.toList ++ rest, [], by simp, [], _, rfl, ⟨rfl, rfl⟩, stem.toList, rest, rfl,
      matches_oneOf_iff.mpr ⟨stem, hstem, rfl⟩, rest, [], by simp, repeats_any_iff.mpr hrest, rfl,
      rfl⟩

end Expression

section names

variable {w : Watchlist} {name stem : String} {flagged : List String}

theorem rest?_eq_some_iff {rest : List Char} :
    rest? stem name = some rest ↔ name.toList = stem.toList ++ rest := by
  rw [rest?, List.isPrefixOf?_eq_some_iff_append_eq, eq_comm]

theorem continues_iff :
    continues stem name = true ↔ ∃ rest, name.toList = stem.toList ++ rest ∧ '\n' ∉ rest := by
  simp only [continues, ← rest?_eq_some_iff]
  cases rest? stem name with
  | none => simp
  | some rest => simp

theorem isFlagged_iff : w.isFlagged name = true ↔
    ∃ stem ∈ stems w.flagged, ∃ rest, name.toList = stem.toList ++ rest ∧ '\n' ∉ rest := by
  simp only [isFlagged, List.any_eq_true, continues_iff]

theorem exists_mem_stems_iff {p : String → Prop} :
    (∃ stem ∈ stems flagged, p stem) ↔ (flagged = [] ∧ p "") ∨ ∃ stem ∈ flagged, p stem := by
  cases flagged <;> simp [stems]

theorem isPrefix_iff : stem.toList <+: name.toList ↔ ∃ rest, name.toList = stem.toList ++ rest := by
  simp only [List.IsPrefix, eq_comm]

/-- The written pattern finds the names that are flagged: those that begin with a stem after which
no line break follows, and without any stem those that have no line break. So with one stem or more
a name without a line break is flagged exactly if it begins with a stem, a name that begins with
none is not flagged, and a flagged name stays flagged when text without a line break is added. -/
theorem flagged_iff_begins_unbroken (w : Watchlist) (name : String) :
    (pattern w.flagged = String.ofList (Expression.ofStems w.flagged).text ∧
      (w.isFlagged name = true ↔ (Expression.ofStems w.flagged).FoundIn name.toList)) ∧
    (w.isFlagged name = true ↔ (w.flagged = [] ∧ '\n' ∉ name.toList) ∨
      ∃ stem ∈ w.flagged, ∃ rest, name.toList = stem.toList ++ rest ∧ '\n' ∉ rest) ∧
    (w.flagged ≠ [] → '\n' ∉ name.toList →
      (w.isFlagged name = true ↔ ∃ stem ∈ w.flagged, stem.toList <+: name.toList)) ∧
    (w.flagged ≠ [] → (∀ stem ∈ w.flagged, ¬ stem.toList <+: name.toList) →
      w.isFlagged name = false) ∧
    (w.isFlagged name = true →
      ∀ more : String, '\n' ∉ more.toList → w.isFlagged (name ++ more) = true) := by
  refine ⟨⟨Expression.pattern_eq w.flagged, ?_⟩, ?_, ?_, ?_, ?_⟩
  · rw [isFlagged_iff, Expression.foundIn_ofStems_iff]
  · rw [isFlagged_iff, exists_mem_stems_iff]
    simp
  · intro hne hname
    rw [isFlagged_iff, exists_mem_stems_iff]
    simp only [hne, false_and, false_or, isPrefix_iff]
    refine exists_congr fun stem => and_congr_right fun _ => exists_congr fun rest => ?_
    exact and_iff_left_of_imp fun hrest hbreak => hname (hrest ▸ List.mem_append_right _ hbreak)
  · intro hne hnone
    rw [← Bool.not_eq_true, isFlagged_iff, exists_mem_stems_iff]
    rintro (⟨hnil, -⟩ | ⟨stem, hstem, rest, hrest, -⟩)
    · exact hne hnil
    · exact hnone stem hstem (isPrefix_iff.mpr ⟨rest, hrest⟩)
  · intro hflagged more hmore
    rw [isFlagged_iff] at hflagged ⊢
    obtain ⟨stem, hstem, rest, hrest, hbreak⟩ := hflagged
    refine ⟨stem, hstem, rest ++ more.toList, ?_, ?_⟩
    · rw [String.toList_append, hrest, List.append_assoc]
    · exact fun hmem => (List.mem_append.mp hmem).elim hbreak hmore

/-- A line break behind the stem hides a name that is flagged up to there, and an empty list of
stems flags a name although it has no stem to begin with. -/
theorem flagged_differs_from_begins :
    ¬ (isFlagged ⟨[], ["com.tencent"]⟩ "com.tencent.\nmm" = true ↔
      ∃ stem ∈ ["com.tencent"], stem.toList <+: "com.tencent.\nmm".toList) ∧
    (isFlagged ⟨[], ["com.tencent"]⟩ "com.tencent." = true ∧
      isFlagged ⟨[], ["com.tencent"]⟩ ("com.tencent." ++ "\nmm") = false) ∧
    isFlagged ⟨[], []⟩ "org.example" = true := by
  refine ⟨?_, by decide, by decide⟩
  intro h
  have hbegins : "com.tencent".toList <+: "com.tencent.\nmm".toList := by decide
  have hflagged := h.mpr ⟨"com.tencent", List.mem_singleton_self _, hbegins⟩
  have hhidden : isFlagged ⟨[], ["com.tencent"]⟩ "com.tencent.\nmm" = false := by decide
  rw [hhidden] at hflagged
  cases hflagged

end names

end VendorScreen.Watchlist
