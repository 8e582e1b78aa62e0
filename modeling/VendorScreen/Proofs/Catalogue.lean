import VendorScreen.Catalogue
import VendorScreen.Proofs.Inventory.Replies

namespace VendorScreen.Catalogue

/-!
# Packages of a catalogue

A catalogue takes an identifier in only once. So each of its packages is the one that its identifier
finds, and the host answers from it.
-/

open Inventory (map_eq_ok_iff)

variable {base : String} {taken : List String} {packages found : List ManifestPackage}
  {p : ManifestPackage} {c : Catalogue}

@[simp] theorem id_located (base : String) (p : ManifestPackage) : (located base p).id = p.id := rfl

/-- The identifiers that are taken in differ from each other and from those taken before. -/
theorem nodup_of_take (h : take base taken packages = .ok found) :
    (found.map ManifestPackage.id).Nodup ∧
      ∀ id ∈ found.map ManifestPackage.id, id ∉ taken := by
  induction packages generalizing taken found with
  | nil =>
      obtain rfl : [] = found := Except.ok.inj h
      exact ⟨List.nodup_nil, by simp⟩
  | cons p rest ih =>
      rw [take] at h
      split_ifs at h with hbad hrepeated
      obtain ⟨others, hothers, rfl⟩ := map_eq_ok_iff.mp h
      obtain ⟨hnodup, hfresh⟩ := ih hothers
      rw [List.contains_iff_mem] at hrepeated
      rw [List.map_cons, id_located]
      refine ⟨List.nodup_cons.mpr ⟨fun hmem => hfresh _ hmem List.mem_cons_self, hnodup⟩, ?_⟩
      intro id hid
      rcases List.mem_cons.mp hid with rfl | hmem
      · exact hrepeated
      · exact fun htaken => hfresh id hmem (List.mem_cons_of_mem _ htaken)

/-- No two packages have the same identifier. -/
def IsDistinct (c : Catalogue) : Prop := (c.packages.map ManifestPackage.id).Nodup

theorem isDistinct_of_ofPackages (h : ofPackages base packages = .ok c) : c.IsDistinct := by
  obtain ⟨found, hfound, rfl⟩ := map_eq_ok_iff.mp h
  exact (nodup_of_take hfound).1

theorem isDistinct_of_load {files : Files.Tree} {path : String} (h : load files path = .ok c) :
    c.IsDistinct := by
  unfold load at h
  split at h
  · cases h
  split at h
  · cases h
  split at h
  · cases h
  obtain ⟨plain, hpackages, rfl⟩ := map_eq_ok_iff.mp h
  have hdistinct : plain.IsDistinct := isDistinct_of_ofPackages hpackages
  exact hdistinct

theorem isDistinct_of_ofDirectory {files : Files.Tree} {path : String}
    (h : ofDirectory files path = .ok c) : c.IsDistinct := by
  unfold ofDirectory at h
  split at h
  · cases h
  exact isDistinct_of_ofPackages h

theorem IsDistinct.find?_eq (h : c.IsDistinct) (hp : p ∈ c.packages) : c.find? p.id = some p := by
  cases hfind : c.find? p.id with
  | none =>
      have hother := List.find?_eq_none.mp hfind p hp
      exact absurd (decide_eq_true rfl) hother
  | some q =>
      have hq := List.mem_of_find?_eq_some hfind
      have hid : q.id = p.id := by simpa using List.find?_some hfind
      exact congrArg some (List.inj_on_of_nodup_map h hq hp hid)

theorem IsDistinct.answer_eq {α : Type} (h : c.IsDistinct) (hp : p ∈ c.packages)
    (value : ManifestPackage → Except HostFault α) : c.answer p.id value = value p := by
  rw [answer, h.find?_eq hp]

end VendorScreen.Catalogue
