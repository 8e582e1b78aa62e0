import VendorScreen.CommandLine.Run
import VendorScreen.Proofs.Query.Decision

namespace VendorScreen

/-!
# Queries without an answer

A trap among the entries of an archive leaves a query in line with its caller without an answer, and
with it every batch that the query belongs to. Nothing else does.
-/

namespace Inspector

variable {i : Inspector} {host : Host} {w : Waiting} {id : String}

/-- The earliest decisive entry of the archive of the package is a trap. -/
def MeetsTrap (i : Inspector) (host : Host) (id : String) : Prop :=
  ∃ archive k entry, i.ReachesEntries host id archive ∧
    IsEarliest (i.IsDecisive archive.bytes) archive.entries k entry ∧
      Zip.IsTrap archive.bytes entry

theorem outcome_eq_abandoned_iff :
    (i.classify host .never id).outcome = .abandoned ↔ i.MeetsTrap host id :=
  (decided_iff ..).symm.trans decided_abandoned_iff

theorem ask_inLine_eq_none_iff :
    (i.ask host .inLine id).value = none ↔ i.MeetsTrap host id := by
  rw [← outcome_eq_abandoned_iff]
  simp only [ask, Waiting.answer, QueryReport.isFlagged?]
  cases (i.classify host .never id).outcome <;> simp

theorem keepFlagged?_cons (ids : List String) :
    i.keepFlagged? host w (id :: ids) = (i.ask host w id).value.bind fun flagged =>
      (i.keepFlagged? host w ids).map fun others => if flagged then id :: others else others := by
  rw [keepFlagged?]
  cases (i.ask host w id).value with
  | none => rfl
  | some flagged => cases i.keepFlagged? host w ids <;> rfl

theorem keepFlagged?_eq_none_iff (i : Inspector) (host : Host) (w : Waiting) (ids : List String) :
    i.keepFlagged? host w ids = none ↔ ∃ id ∈ ids, (i.ask host w id).value = none := by
  induction ids with
  | nil => simp [keepFlagged?]
  | cons id ids ih =>
      rw [keepFlagged?_cons]
      cases hvalue : (i.ask host w id).value with
      | none => simp [hvalue]
      | some flagged => simp [hvalue, ih]

/-- A batch keeps the identifiers with the answer yes, in their order. -/
theorem keepFlagged?_eq_some {ids kept : List String}
    (h : i.keepFlagged? host w ids = some kept) :
    kept = ids.filter fun id => (i.ask host w id).value = some true := by
  induction ids generalizing kept with
  | nil => exact (Option.some.inj h).symm
  | cons id ids ih =>
      rw [keepFlagged?_cons] at h
      obtain ⟨flagged, hvalue, h⟩ := Option.bind_eq_some_iff.mp h
      obtain ⟨others, hothers, rfl⟩ := Option.map_eq_some_iff.mp h
      rw [List.filter_cons, ← ih hothers, hvalue]
      cases flagged <;> simp

end Inspector

namespace CommandLine

theorem Report.ofQuery?_eq_none_iff (target : String) (r : QueryReport) :
    Report.ofQuery? target r = none ↔ r.outcome = .abandoned := by
  unfold Report.ofQuery?
  cases r.outcome <;> simp

theorem Finder.report?_eq_none_iff (f : Finder) (id : String) :
    f.report? id = none ↔ f.inspector.MeetsTrap f.host id :=
  (Report.ofQuery?_eq_none_iff ..).trans Inspector.outcome_eq_abandoned_iff

end CommandLine

/-- Queries in line, reports on packages and whole batches have an answer exactly when no trap is
met. The answer of a batch is then the part of it with the answer yes. -/
theorem answered_iff_no_trap_met (f : CommandLine.Finder) :
    (∀ id, (∃ answer, (f.inspector.ask f.host .inLine id).value = some answer) ↔
      ¬ f.inspector.MeetsTrap f.host id) ∧
    (∀ id, (∃ report, f.report? id = some report) ↔ ¬ f.inspector.MeetsTrap f.host id) ∧
    (∀ ids kept, f.inspector.keepFlagged? f.host .inLine ids = some kept ↔
      (∀ id ∈ ids, ¬ f.inspector.MeetsTrap f.host id) ∧
        kept = ids.filter fun id => (f.inspector.ask f.host .inLine id).value = some true) := by
  refine ⟨?_, ?_, ?_⟩
  · intro id
    rw [← Inspector.ask_inLine_eq_none_iff, ← Option.isSome_iff_exists, Option.isSome_iff_ne_none]
  · intro id
    rw [← f.report?_eq_none_iff, ← Option.isSome_iff_exists, Option.isSome_iff_ne_none]
  · intro ids kept
    have hnone := Inspector.keepFlagged?_eq_none_iff f.inspector f.host .inLine ids
    simp only [Inspector.ask_inLine_eq_none_iff] at hnone
    constructor
    · intro h
      refine ⟨?_, Inspector.keepFlagged?_eq_some h⟩
      intro id hid htrap
      have habsent := hnone.mpr ⟨id, hid, htrap⟩
      simp [h] at habsent
    · rintro ⟨hfree, rfl⟩
      cases h : f.inspector.keepFlagged? f.host .inLine ids with
      | none =>
          obtain ⟨id, hid, htrap⟩ := hnone.mp h
          exact absurd htrap (hfree id hid)
      | some kept => rw [Inspector.keepFlagged?_eq_some h]

/-- An archive with a single entry, which is stored, empty, not marked as encrypted, and described
as strongly encrypted all the same. -/
def trapArchive : ByteArray := ⟨#[
  0x50, 0x4b, 0x03, 0x04, 0x14, 0, 0, 0, 0, 0, 0, 0, 0x21, 0, 0, 0, 0, 0, 0, 0, 0, 0, 0, 0, 0, 0,
  1, 0, 0, 0, 0x61,
  0x50, 0x4b, 0x01, 0x02, 0x14, 3, 0x14, 0, 0, 0, 0, 0, 0, 0, 0x21, 0, 0, 0, 0, 0, 0, 0, 0, 0, 0, 0,
  0, 0, 1, 0, 11, 0, 0, 0, 0, 0, 0, 0, 0, 0, 0, 0, 0, 0, 0, 0, 0x61,
  0x01, 0x99, 7, 0, 2, 0, 0x41, 0x45, 3, 0, 0,
  0x50, 0x4b, 0x05, 0x06, 0, 0, 0, 0, 1, 0, 1, 0, 58, 0, 0, 0, 31, 0, 0, 0, 0, 0]⟩

/-- A host whose packages declare nothing and all have that archive. -/
def trapHost : Host where
  installed := .ok []
  components _ := .ok []
  archive _ := .ok trapArchive
  icon _ := .ok none
  defaultIcon := .ok none

/-- Not every query has an answer: the trap costs its own, and that of an identifier that would be
flagged without an archive. -/
theorem unanswered_at_trap :
    (Inspector.builtin.ask trapHost .inLine "org.trap").value = none ∧
    (Inspector.builtin.ask trapHost .inLine "com.tencent.mm").value = some true ∧
    Inspector.builtin.keepFlagged? trapHost .inLine ["com.tencent.mm", "org.trap"] = none := by
  decide +kernel

end VendorScreen
