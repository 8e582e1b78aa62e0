import VendorScreen.Proofs.Batch.Interleaving
import VendorScreen.Proofs.Query.Assets
import VendorScreen.Proofs.Query.Simulation

namespace VendorScreen

/-!
# Wider watchlists

With more flagged stems and fewer skipped ones a query may be decided at an earlier stage, entry or
name. Whatever decides it there is a match, because neither faults nor the sizes of entries have
anything to do with the lists.
-/

namespace Watchlist

/-- What is flagged by the one is flagged by the other. The stems that it flags are stems of both,
so there has to be one. -/
structure IsWithin (w w' : Watchlist) : Prop where
  skip_subset : w'.skip ⊆ w.skip
  flagged_ne_nil : w.flagged ≠ []
  flagged_subset : w.flagged ⊆ w'.flagged

variable {w w' : Watchlist} {name id : String}

theorem IsWithin.isFlagged (h : w.IsWithin w') (hname : w.isFlagged name = true) :
    w'.isFlagged name = true := by
  have hne : w'.flagged ≠ [] := by
    intro hnil
    apply h.flagged_ne_nil
    rw [← List.subset_nil, ← hnil]
    exact h.flagged_subset
  unfold Watchlist.isFlagged at hname ⊢
  rw [stems_of_ne_nil h.flagged_ne_nil, List.any_eq_true] at hname
  rw [stems_of_ne_nil hne, List.any_eq_true]
  obtain ⟨stem, hmem, hstem⟩ := hname
  exact ⟨stem, h.flagged_subset hmem, hstem⟩

theorem IsWithin.isFlagged_eq_false (h : w.IsWithin w') (hname : w'.isFlagged name = false) :
    w.isFlagged name = false := by
  apply Bool.eq_false_of_not_eq_true
  intro htrue
  rw [h.isFlagged htrue] at hname
  cases hname

theorem IsWithin.find?_eq_none (h : w.IsWithin w') {components : List Component}
    (hfind : (components.find? fun component => w'.isFlagged component.className) = none) :
    (components.find? fun component => w.isFlagged component.className) = none := by
  rw [List.find?_eq_none] at hfind ⊢
  intro component hmem hname
  exact hfind component hmem (h.isFlagged hname)

theorem IsWithin.isSkipped (h : w.IsWithin w') (hid : w.isSkipped id = false) :
    w'.isSkipped id = false := by
  unfold Watchlist.isSkipped at hid ⊢
  rw [List.any_eq_false] at hid ⊢
  intro stem hmem
  exact hid stem (h.skip_subset hmem)

end Watchlist

def Outcome.IsMatch (outcome : Outcome QueryError Verdict) : Prop :=
  ∃ verdict, outcome = .ok verdict ∧ verdict.isFlagged = true

/-- The second outcome is a match if the first one is, though it may be another match. -/
def Outcome.StaysMatch (outcome outcome' : Outcome QueryError Verdict) : Prop :=
  outcome.IsMatch → outcome'.IsMatch

namespace Inspector

def withLists (i : Inspector) (lists : Watchlist) : Inspector := { i with watchlist := lists }

variable {i : Inspector} {flag : StopFlag} {lists : Watchlist} {host : Host} {id : String}
  {bytes : ByteArray} {index decodings : ℕ} {entry : Zip.Entry} {entries : List Zip.Entry}
  {outcome : Outcome QueryError Verdict}

theorem isComparison_staysMatch : IsComparison Outcome.StaysMatch where
  same _ := id
  noVerdict h _ := fun ⟨verdict, houtcome, _⟩ => absurd houtcome (h verdict)

/-- An entry that settles something either matches or does the same under any other lists. -/
theorem Settles.match_or_settles (h : (i.withLists lists).Settles bytes index entry outcome) :
    outcome.IsMatch ∨ i.Settles bytes index entry outcome := by
  cases h with
  | abandoned hopen => exact .inr (.abandoned hopen)
  | unreadable hopen => exact .inr (.unreadable hopen)
  | oversized hopen hname hsize => exact .inl ⟨_, rfl, rfl⟩
  | undecodable hopen hname hsize hdecode => exact .inr (.undecodable hopen hname hsize hdecode)
  | classMatch hopen hname hsize hdecode hfirst => exact .inl ⟨_, rfl, rfl⟩

section wider

variable (h : i.watchlist.IsWithin lists)
include h

theorem Passes.of_isWithin (hpass : (i.withLists lists).Passes bytes entry) :
    i.Passes bytes entry := by
  cases hpass with
  | other hopen hname => exact .other hopen hname
  | unmatched hopen hname hsize hdecode hnone =>
      refine .unmatched hopen hname hsize hdecode ?_
      intro name hmem hname
      exact hnone name hmem (h.isFlagged hname)

/-- A walk that ends with a match ends with one under wider lists, if not with the same one. -/
theorem inspectFrom_of_isWithin
    (hflagged : (i.inspectFrom flag bytes index decodings entries).isFlagged? = some true) :
    ((i.withLists lists).inspectFrom flag bytes index decodings entries).isFlagged? = some true := by
  rw [QueryReport.isFlagged?_eq_some_true_iff] at hflagged ⊢
  have hentry (entry : Zip.Entry) :
      KeepsUp Outcome.StaysMatch i (i.withLists lists) bytes bytes entry entry := by
    refine ⟨rfl, Passes.of_isWithin h, ?_⟩
    intro index outcome hsettles
    rcases hsettles.match_or_settles with hmatch | hfault
    · exact .inr fun _ _ => hmatch
    · exact .inl hfault
  exact compare_inspectFrom isComparison_staysMatch
    (List.forall₂_same.mpr fun entry _ => hentry entry) hflagged

theorem inspect_of_isWithin (hflagged : (i.inspect flag bytes).isFlagged? = some true) :
    ((i.withLists lists).inspect flag bytes).isFlagged? = some true := by
  unfold inspect at hflagged ⊢
  cases hopen : Zip.Archive.open bytes with
  | error fault =>
      rw [hopen] at hflagged
      cases hflagged
  | ok archive =>
      simp only [hopen] at hflagged ⊢
      cases hmark : archive.findName? neutralLibraryMarker with
      | some entry =>
          rw [hmark] at hflagged
          cases hflagged
      | none =>
          simp only [hmark] at hflagged ⊢
          exact inspectFrom_of_isWithin h hflagged

theorem classifyArchive_of_isWithin
    (hflagged : (i.classifyArchive host flag id).isFlagged? = some true) :
    ((i.withLists lists).classifyArchive host flag id).isFlagged? = some true := by
  unfold classifyArchive at hflagged ⊢
  cases hflag : flag .beforeArchive with
  | true =>
      rw [hflag] at hflagged
      cases hflagged
  | false =>
      simp only [hflag, Bool.false_eq_true, if_false] at hflagged ⊢
      cases hbytes : host.archive id with
      | error fault =>
          rw [hbytes] at hflagged
          cases hflagged
      | ok bytes =>
          simp only [hbytes] at hflagged ⊢
          exact inspect_of_isWithin h hflagged

theorem classify_of_isWithin (hflagged : (i.classify host flag id).isFlagged? = some true) :
    ((i.withLists lists).classify host flag id).isFlagged? = some true := by
  unfold classify at hflagged ⊢
  cases hskip : i.watchlist.isSkipped id with
  | true =>
      rw [hskip] at hflagged
      cases hflagged
  | false =>
      have hskip' : (i.withLists lists).watchlist.isSkipped id = false := h.isSkipped hskip
      rw [hskip', if_neg Bool.false_ne_true]
      cases hid : (i.withLists lists).watchlist.isFlagged id with
      | true => rfl
      | false =>
          simp only [hskip, h.isFlagged_eq_false hid, Bool.false_eq_true, if_false] at hflagged ⊢
          cases hlist : host.components id with
          | error fault =>
              rw [hlist] at hflagged
              cases hflagged
          | ok components =>
              simp only [hlist] at hflagged ⊢
              cases hfind : components.find? fun component =>
                  (i.withLists lists).watchlist.isFlagged component.className with
              | some component => rfl
              | none =>
                  simp only [h.find?_eq_none hfind] at hflagged
                  exact classifyArchive_of_isWithin h hflagged

end wider

end Inspector

/-- A package that is flagged stays flagged when stems are added to the flagged ones and taken from
the skipped ones, whatever cannot be read on the way, if nobody gives up the second query. -/
theorem flagged_under_wider_lists (i : Inspector) (lists : Watchlist)
    (hwider : i.watchlist.IsWithin lists) (host : Host) (w w' : Waiting) (hpatient : w'.IsPatient)
    (id : String) (hflagged : (i.ask host w id).value = some true) :
    ((i.withLists lists).ask host w' id).value = some true := by
  rw [Inspector.ask_eq_some_true_iff hpatient]
  apply Inspector.classify_of_isWithin hwider
  exact Inspector.isFlagged?_of_ask hflagged

def narrowLists : Watchlist := ⟨["com.google", "org.vendor"], ["com.tencent"]⟩

def widerLists : Watchlist := ⟨["com.google"], ["org.vendor", "com.tencent"]⟩

theorem narrowLists_isWithin : narrowLists.IsWithin widerLists := by
  refine ⟨?_, ?_, ?_⟩ <;> decide

/-- A package with a component of a vendor and a class container that is larger than the limit. -/
def vendorHost : Host where
  installed := .ok []
  components id := .ok [⟨id, "org.vendor.Push"⟩]
  archive _ := .ok (lackingArchive 1).bytes
  icon _ := .ok none
  defaultIcon := .ok none

/-- The wider lists stop at the component, the narrow ones only at the class container. -/
theorem flagged_under_wider_lists_vendor :
    narrowLists.IsWithin widerLists ∧ Waiting.inLine.IsPatient ∧
    ((Inspector.builtin.withLists narrowLists).classify vendorHost .never "net.sample").outcome =
      .ok (.oversizedClassContainer "classes.dex" 15000001) ∧
    ((Inspector.builtin.withLists widerLists).classify vendorHost .never "net.sample").outcome =
      .ok (.componentMatch "org.vendor.Push") ∧
    (((Inspector.builtin.withLists narrowLists).withLists widerLists).ask vendorHost .inLine
      "net.sample").value = some true := by
  have hnarrow : ((Inspector.builtin.withLists narrowLists).classify vendorHost .never
      "net.sample").outcome = .ok (.oversizedClassContainer "classes.dex" 15000001) := by
    decide +kernel
  have hwider : ((Inspector.builtin.withLists widerLists).classify vendorHost .never
      "net.sample").outcome = .ok (.componentMatch "org.vendor.Push") := by
    decide +kernel
  have hpatient : Waiting.inLine.IsPatient := trivial
  have hflagged : ((Inspector.builtin.withLists narrowLists).ask vendorHost .inLine
      "net.sample").value = some true := by
    rw [Inspector.ask_eq_some_true_iff hpatient, QueryReport.isFlagged?_eq_some_true_iff]
    exact ⟨_, hnarrow, rfl⟩
  exact ⟨narrowLists_isWithin, hpatient, hnarrow, hwider,
    flagged_under_wider_lists _ _ narrowLists_isWithin _ _ _ hpatient _ hflagged⟩

end VendorScreen
