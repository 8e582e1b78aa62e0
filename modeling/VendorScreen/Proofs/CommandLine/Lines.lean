import Mathlib
import VendorScreen.CommandLine.Run

namespace VendorScreen.CommandLine

open Files (Tree)

/-!
# Printed lines

Texts are printed one after the other, each with a line feed behind it. Taken apart at the line
feeds, what is printed gives back the texts exactly if none of them holds one.
-/

/-- No piece holds what a list is split at. -/
theorem not_mem_of_mem_splitOn {α : Type} [DecidableEq α] {a : α} {piece l : List α}
    (h : piece ∈ l.splitOn a) : a ∉ piece := by
  induction l generalizing piece with
  | nil =>
      rw [List.splitOn_nil, List.mem_singleton] at h
      simp [h]
  | cons b l ih =>
      rw [List.splitOn_cons_eq_if_modifyHead] at h
      split_ifs at h with hb
      · rcases List.mem_cons.mp h with rfl | h
        · exact List.not_mem_nil
        · exact ih h
      · obtain ⟨first, rest, hsplit⟩ := List.exists_cons_of_ne_nil (List.splitOn_ne_nil a l)
        rw [hsplit] at h ih
        rcases List.mem_cons.mp h with rfl | h
        · have hne : a ≠ b := fun heq => hb (beq_iff_eq.mpr heq.symm)
          exact List.not_mem_cons_of_ne_of_not_mem hne (ih List.mem_cons_self)
        · exact ih (List.mem_cons_of_mem first h)

namespace Report

variable {texts texts' : List String}

/-- Text without line feeds in it. -/
def IsUnbroken (text : String) : Prop := '\n' ∉ text.toList

theorem toList_lines_cons (text : String) (texts : List String) :
    (lines (text :: texts)).toList = text.toList ++ '\n' :: (lines texts).toList := by
  simp [lines, String.toList_join]

/-- Behind the pieces of the texts there is one empty piece. -/
theorem splitOn_lines (texts : List String) :
    (lines texts).toList.splitOn '\n' =
      texts.flatMap (fun text => text.toList.splitOn '\n') ++ [[]] := by
  induction texts with
  | nil => rfl
  | cons text texts ih =>
      rw [toList_lines_cons, List.splitOn_append_cons_self, ih, List.flatMap_cons,
        List.append_assoc]

theorem splitOn_lines_of_isUnbroken (h : ∀ text ∈ texts, IsUnbroken text) :
    (lines texts).toList.splitOn '\n' = texts.map String.toList ++ [[]] := by
  induction texts with
  | nil => rfl
  | cons text texts ih =>
      obtain ⟨htext, hrest⟩ := List.forall_mem_cons.mp h
      rw [toList_lines_cons, List.splitOn_append_cons_self_of_not_mem htext, ih hrest,
        List.map_cons, List.cons_append]

/-- The pieces are the texts exactly if no text is broken. -/
theorem splitOn_lines_eq_iff :
    (lines texts).toList.splitOn '\n' = texts.map String.toList ++ [[]] ↔
      ∀ text ∈ texts, IsUnbroken text := by
  constructor
  · intro h text htext
    apply not_mem_of_mem_splitOn (l := (lines texts).toList)
    rw [h]
    exact List.mem_append_left _ (List.mem_map_of_mem htext)
  · exact splitOn_lines_of_isUnbroken

/-- Unbroken texts can be told from what is printed. -/
theorem eq_of_lines_eq (h : ∀ text ∈ texts, IsUnbroken text)
    (h' : ∀ text ∈ texts', IsUnbroken text) (hlines : lines texts = lines texts') :
    texts = texts' := by
  have hpieces := splitOn_lines_of_isUnbroken h
  rw [hlines, splitOn_lines_of_isUnbroken h', List.append_left_inj] at hpieces
  exact (List.map_injective_iff.mpr (fun _ _ => String.toList_injective) hpieces).symm

end Report

/-! ## A single archive -/

/-- A tree with nothing in it but an archive. -/
def archiveFiles (bytes : ByteArray) : Tree := ⟨[("a.apk", .file bytes 0)], "/"⟩

theorem read_archiveFiles (bytes : ByteArray) : (archiveFiles bytes).read "/a.apk" = .ok bytes := by
  have hsteps : Files.Path.steps (Files.Path.join "/" "/a.apk") = ["a.apk"] := by decide +kernel
  have hsize : "a.apk".utf8ByteSize = 5 ∧ "/a.apk".utf8ByteSize = 6 := by decide +kernel
  simp [Tree.read, Tree.find, Tree.maxPathBytes, Tree.maxNameBytes, Tree.follow, Tree.entriesAt,
    archiveFiles, hsteps, hsize]

end VendorScreen.CommandLine
