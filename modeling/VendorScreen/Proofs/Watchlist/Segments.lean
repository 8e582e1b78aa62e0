import VendorScreen.Proofs.Batch.Interleaving
import VendorScreen.Proofs.Watchlist.Expression

namespace VendorScreen

/-!
# Skipping by segments

The skip list is compared with identifiers as text, with a look at the one character behind a stem.
That comes to the same as comparing the segments between the dots: what is skipped are the subtrees
of the hierarchy of names below the stems of the list. No query finds anything there.
-/

section splitting

variable {α : Type} {sep : List α} {pieces others : List (List α)}

theorem intercalate_append_of_ne_nil (hpieces : pieces ≠ []) (hothers : others ≠ []) :
    sep.intercalate (pieces ++ others) =
      sep.intercalate pieces ++ (sep ++ sep.intercalate others) := by
  induction pieces with
  | nil => exact absurd rfl hpieces
  | cons piece rest ih =>
      rw [List.cons_append]
      cases rest with
      | nil =>
          rw [List.nil_append, List.intercalate_cons_of_ne_nil hothers,
            List.intercalate_singleton, List.append_assoc]
      | cons next rest =>
          rw [List.intercalate_cons_of_ne_nil (by simp), List.intercalate_cons_of_ne_nil (by simp),
            ih (by simp)]
          simp only [List.append_assoc]

/-- The pieces of one list are the first ones of another exactly if the other one is the same, or
goes on behind it with what lists are split at. -/
theorem splitOn_prefix_iff [DecidableEq α] {a : α} {l m : List α} :
    l.splitOn a <+: m.splitOn a ↔ m = l ∨ ∃ rest, m = l ++ a :: rest := by
  constructor
  · rintro ⟨others, hpieces⟩
    have hjoined : [a].intercalate (m.splitOn a) = m := List.intercalate_splitOn a
    rw [← hpieces] at hjoined
    by_cases hothers : others = []
    · rw [hothers, List.append_nil, List.intercalate_splitOn] at hjoined
      exact .inl hjoined.symm
    · rw [intercalate_append_of_ne_nil (List.splitOn_ne_nil a l) hothers,
        List.intercalate_splitOn] at hjoined
      exact .inr ⟨_, hjoined.symm⟩
  · rintro (rfl | ⟨rest, rfl⟩)
    · exact List.prefix_rfl
    · rw [List.splitOn_append_cons_self]
      exact List.prefix_append _ _

end splitting

namespace Watchlist

variable {w : Watchlist} {stem id : String}

/-- The parts of a name between its dots, empty ones among them. -/
def segments (name : String) : List (List Char) := name.toList.splitOn '.'

theorem descends_iff : descends stem id = true ↔
    id.toList = stem.toList ∨ ∃ rest, id.toList = stem.toList ++ '.' :: rest := by
  unfold descends
  cases hrest : rest? stem id with
  | none =>
      have hother (rest : List Char) : id.toList ≠ stem.toList ++ rest := by
        rw [ne_eq, ← rest?_eq_some_iff, hrest]
        simp
      have hsame : id.toList ≠ stem.toList := by simpa using hother []
      simp [hother, hsame]
  | some rest =>
      rw [rest?_eq_some_iff] at hrest
      cases rest with
      | nil => simp [hrest]
      | cons c rest => simp [hrest]

theorem descends_iff_segments_prefix :
    descends stem id = true ↔ segments stem <+: segments id := by
  rw [descends_iff, segments, segments, splitOn_prefix_iff]

example : (["a", "a.", ""].map fun stem => ["a", "a.b", "a..b", "ab", ".a"].filter
    (descends stem)) = [["a", "a.b", "a..b"], ["a..b"], [".a"]] := by decide

theorem isSkipped_iff : w.isSkipped id = true ↔ ∃ stem ∈ w.skip, segments stem <+: segments id := by
  simp only [isSkipped, List.any_eq_true, descends_iff_segments_prefix]

theorem segments_prefix_append (id more : String) :
    segments id <+: segments (id ++ "." ++ more) := by
  have htext : (id ++ "." ++ more).toList = id.toList ++ '.' :: more.toList := by simp
  rw [segments, segments, htext, List.splitOn_append_cons_self]
  exact List.prefix_append _ _

theorem isSkipped_append (h : w.isSkipped id = true) (more : String) :
    w.isSkipped (id ++ "." ++ more) = true := by
  obtain ⟨stem, hstem, hsegments⟩ := isSkipped_iff.mp h
  exact isSkipped_iff.mpr ⟨stem, hstem, hsegments.trans (segments_prefix_append id more)⟩

end Watchlist

namespace Inspector

variable {i : Inspector} {id : String} (h : i.watchlist.isSkipped id = true)
include h

/-- A query about a skipped identifier asks for nothing. -/
theorem classify_of_isSkipped (host : Host) (flag : StopFlag) :
    i.classify host flag id = ⟨.ok .skipped, []⟩ := if_pos h

theorem value_ask_of_isSkipped (host : Host) (w : Waiting) :
    (i.ask host w id).value = some false := by
  rw [ask, classify_of_isSkipped h]
  cases w with
  | inLine => rfl
  | apart isOverdue =>
      rw [Waiting.answer]
      split <;> rfl

theorem not_mem_of_keepFlagged? {host : Host} {w : Waiting} {ids kept : List String}
    (hkept : i.keepFlagged? host w ids = some kept) : id ∉ kept := by
  rw [keepFlagged?_eq_some hkept, List.mem_filter, value_ask_of_isSkipped h host w]
  simp

theorem not_flags_of_isSkipped (host : Host) : ¬ i.Flags host id := by
  rw [flags_iff_ask_inLine, value_ask_of_isSkipped h]
  simp

end Inspector

theorem TimedBatch.Reaches.not_mem_kept {b : TimedBatch} {trace : b.Trace} {s : b.State}
    {kept : List String} {id : String} (hreach : b.Reaches trace s)
    (hkept : b.kept? s = some kept) (h : b.inspector.watchlist.isSkipped id = true) :
    id ∉ kept := by
  intro hmem
  rw [hreach.kept_eq hkept, TimedBatch.idsAt] at hmem
  obtain ⟨p, hp, hid⟩ := List.mem_map.mp hmem
  have hflags := (of_decide_eq_true (List.mem_filter.mp hp).2).2
  exact Inspector.not_flags_of_isSkipped h b.host (hid ▸ hflags)

/-- An identifier is skipped exactly if the segments of a stem in the skip list are its first ones.
So what is below a skipped identifier is skipped too. A query about it asks for nothing and is
answered with no, whatever its package holds and however the caller waits, and no batch keeps it. -/
theorem skipped_below_segments (i : Inspector) (id : String) :
    (i.watchlist.isSkipped id = true ↔ ∃ stem ∈ i.watchlist.skip,
      Watchlist.segments stem <+: Watchlist.segments id) ∧
    (i.watchlist.isSkipped id = true →
      ∀ more, i.watchlist.isSkipped (id ++ "." ++ more) = true) ∧
    (i.watchlist.isSkipped id = true → ∀ host : Host,
      (∀ flag, i.classify host flag id = ⟨.ok .skipped, []⟩) ∧
      (∀ w, (i.ask host w id).value = some false) ∧
      (∀ w ids kept, i.keepFlagged? host w ids = some kept → id ∉ kept) ∧
      ∀ width ids,
        let b : TimedBatch := ⟨i, host, width, ids⟩
        ∀ trace s kept, b.Reaches trace s → b.kept? s = some kept → id ∉ kept) := by
  refine ⟨Watchlist.isSkipped_iff, Watchlist.isSkipped_append, ?_⟩
  intro h host
  refine ⟨Inspector.classify_of_isSkipped h host, Inspector.value_ask_of_isSkipped h host, ?_, ?_⟩
  · intro w ids kept hkept
    exact Inspector.not_mem_of_keepFlagged? h hkept
  · intro width ids b trace s kept hreach hkept
    exact hreach.not_mem_kept hkept h

end VendorScreen
