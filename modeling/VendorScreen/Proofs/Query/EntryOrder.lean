import VendorScreen.Proofs.Query.SizeLimit
import VendorScreen.Proofs.Query.WiderLists

namespace VendorScreen

/-!
# The order of entries

An inspection stops at the first entry that settles anything, so the verdict depends on the order in
which an archive lists its entries. Where nothing can go wrong, whether the archive is flagged does
not: any entry that is too large or holds a flagged class flags it, unless there is a marker.
-/

namespace Zip

/-- The archive `a'` has the entries of `a` in some order. -/
def Archive.IsReordering (a' a : Archive) : Prop :=
  ∃ entries, a.entries.Perm entries ∧
    List.Forall₂ (IsSameEntry a.bytes a'.bytes) entries a'.entries

theorem exists_of_mem_of_forall₂ {α β : Type} {r : α → β → Prop} {xs : List α} {ys : List β}
    (h : List.Forall₂ r xs ys) {y : β} (hy : y ∈ ys) : ∃ x ∈ xs, r x y := by
  induction h with
  | nil => simp at hy
  | cons hfirst _ ih =>
      rcases List.mem_cons.mp hy with rfl | hy
      · exact ⟨_, List.mem_cons_self, hfirst⟩
      · obtain ⟨x, hx, hxy⟩ := ih hy
        exact ⟨x, List.mem_cons_of_mem _ hx, hxy⟩

namespace Archive.IsReordering

variable {a a' : Archive} {entry : Entry}

theorem exists_before (h : a'.IsReordering a) (hentry : entry ∈ a'.entries) :
    ∃ before ∈ a.entries, IsSameEntry a.bytes a'.bytes before entry := by
  obtain ⟨entries, hperm, hsame⟩ := h
  obtain ⟨before, hmem, hbefore⟩ := exists_of_mem_of_forall₂ hsame hentry
  exact ⟨before, hperm.mem_iff.mpr hmem, hbefore⟩

theorem exists_after (h : a'.IsReordering a) (hentry : entry ∈ a.entries) :
    ∃ after ∈ a'.entries, IsSameEntry a.bytes a'.bytes entry after := by
  obtain ⟨entries, hperm, hsame⟩ := h
  exact exists_of_mem_of_forall₂ hsame.flip (hperm.mem_iff.mp hentry)

end Archive.IsReordering

/-- Writing the headers of a directory in another order reorders the entries, if their own headers
and data stand in front of the directory. -/
theorem IsArchive.isReordering {b b' : ByteArray} {front : List UInt8} {shift : ℕ}
    {headers headers' : List Header} {comment : List UInt8} {entries : List Entry}
    (h : IsArchive b front shift headers comment)
    (h' : IsArchive b' front shift headers' comment) (hperm : headers.Perm headers')
    (hread : List.Forall₂ (fun h entry => h.readAs shift = .ok entry) headers entries)
    (hlies : ∀ entry ∈ entries, LiesBefore b front.length entry) :
    Archive.open b = .ok ⟨b, entries⟩ ∧ ∃ entries', Archive.open b' = .ok ⟨b', entries'⟩ ∧
      Archive.IsReordering ⟨b', entries'⟩ ⟨b, entries⟩ := by
  obtain ⟨entries', hread', hperm'⟩ := List.perm_comp_forall₂ hperm.symm hread
  refine ⟨h.open_eq hread, entries', h'.open_eq hread', entries', hperm'.symm, ?_⟩
  refine List.forall₂_same.mpr fun entry hentry => h.isSameEntry h' (hlies entry ?_)
  exact hperm'.mem_iff.mp hentry

end Zip

namespace Inspector

/-- The entry can be opened, and decoded if it is a class container within the limit. -/
def IsHealthy (i : Inspector) (bytes : ByteArray) (entry : Zip.Entry) : Prop :=
  ∃ e, entry.open bytes = .opened e ∧
    (isClassContainer entry.name = true → entry.size ≤ i.sizeLimit →
      ∃ names, i.decoder e.source entry.size = .ok names)

/-- The entry is a class container that is too large or holds a flagged class. -/
inductive Incriminates (i : Inspector) (bytes : ByteArray) (entry : Zip.Entry) : Prop
  | oversized (hname : isClassContainer entry.name = true) (hsize : i.sizeLimit < entry.size)
  | flagged {e : Zip.OpenEntry} {names : List String} {className : String}
      (hname : isClassContainer entry.name = true) (hopen : entry.open bytes = .opened e)
      (hdecode : i.decoder e.source entry.size = .ok names) (hmem : className ∈ names)
      (hflagged : i.watchlist.isFlagged className = true)

variable {i : Inspector} {bytes : ByteArray} {index : ℕ} {entry : Zip.Entry} {a a' : Zip.Archive}
  {outcome : Outcome QueryError Verdict}

section healthy

/-- What a healthy entry settles is a match. -/
theorem IsHealthy.isMatch_of_settles (h : i.IsHealthy bytes entry)
    (hsettles : i.Settles bytes index entry outcome) : outcome.IsMatch := by
  obtain ⟨e, hopen, hdecodes⟩ := h
  cases hsettles with
  | abandoned hopen' => simp [hopen] at hopen'
  | unreadable hopen' => simp [hopen] at hopen'
  | oversized hopen' hname hsize => exact ⟨_, rfl, rfl⟩
  | undecodable hopen' hname hsize hdecode =>
      obtain ⟨names, hnames⟩ := hdecodes hname hsize
      obtain rfl := Zip.Opening.opened.inj (hopen.symm.trans hopen')
      simp [hnames] at hdecode
  | classMatch hopen' hname hsize hdecode hfirst => exact ⟨_, rfl, rfl⟩

theorem Passes.not_incriminates (h : i.Passes bytes entry) : ¬ i.Incriminates bytes entry := by
  intro hincriminates
  cases h with
  | other hopen hname =>
      cases hincriminates with
      | oversized hname' | flagged hname' => simp [hname] at hname'
  | unmatched hopen hname hsize hdecode hnone =>
      cases hincriminates with
      | oversized hname' hsize' => exact absurd hsize' (Nat.not_lt.mpr hsize)
      | flagged hname' hopen' hdecode' hmem hflagged =>
          obtain rfl := Zip.Opening.opened.inj (hopen.symm.trans hopen')
          obtain rfl := Except.ok.inj (hdecode.symm.trans hdecode')
          exact hnone _ hmem hflagged

theorem IsHealthy.isDecisive_iff (h : i.IsHealthy bytes entry) :
    i.IsDecisive bytes entry ↔ i.Incriminates bytes entry := by
  constructor
  · rintro ⟨index, outcome, hsettles⟩
    have hmatch := h.isMatch_of_settles hsettles
    cases hsettles with
    | oversized hopen hname hsize => exact .oversized hname hsize
    | classMatch hopen hname hsize hdecode hfirst =>
        exact .flagged hname hopen hdecode hfirst.mem hfirst.2.1
    | abandoned | unreadable | undecodable =>
        obtain ⟨verdict, houtcome, -⟩ := hmatch
        cases houtcome
  · intro hincriminates
    by_contra hpass
    exact (passes_of_not_isDecisive hpass).not_incriminates hincriminates

/-- The lookup comes to a healthy entry exactly if its name begins with the stem. -/
theorem IsHealthy.isFoundBy_iff (h : i.IsHealthy bytes entry) (stem : String) :
    Zip.IsFoundBy bytes stem entry ↔ stem.toList <+: entry.name.toList := by
  obtain ⟨e, hopen, -⟩ := h
  obtain ⟨-, -, start, hstart, -⟩ := Zip.Entry.parts_of_open hopen
  exact and_iff_right ⟨start, hstart⟩

/-- What the entries have to be for their archive to be flagged, in any order. -/
def IsFlaggedBy (i : Inspector) (a : Zip.Archive) : Prop :=
  (∀ entry ∈ a.entries, ¬ neutralLibraryMarker.toList <+: entry.name.toList) ∧
    ∃ entry ∈ a.entries, i.Incriminates a.bytes entry

/-- A healthy archive has a verdict, and its entries say whether that is a match. -/
theorem exists_verdict_of_healthy (hopen : Zip.Archive.open a.bytes = .ok a)
    (h : ∀ entry ∈ a.entries, i.IsHealthy a.bytes entry) :
    ∃ verdict, (i.inspect .never a.bytes).outcome = .ok verdict ∧
      (verdict.isFlagged = true ↔ i.IsFlaggedBy a) := by
  cases hmark : a.findName? neutralLibraryMarker with
  | some marker =>
      obtain ⟨k, entry, hfirst, -⟩ := (a.findName?_eq_some_iff _ _).mp hmark
      have hmarker := ((h entry hfirst.mem).isFoundBy_iff _).mp hfirst.2.1
      refine ⟨.neutralLibrary marker, by simp only [inspect, hopen, hmark], ?_⟩
      exact iff_of_false Bool.false_ne_true fun hflagged => hflagged.1 entry hfirst.mem hmarker
  | none =>
      have hunmarked := (a.findName?_eq_none_iff _).mp hmark
      have hnames : ∀ entry ∈ a.entries, ¬ neutralLibraryMarker.toList <+: entry.name.toList :=
        fun entry hentry hname =>
          hunmarked entry hentry (((h entry hentry).isFoundBy_iff _).mpr hname)
      rw [inspect_of_unmarked hopen hunmarked]
      rcases IsEarliest.exists_or_forall_not (i.IsDecisive a.bytes) a.entries with
        ⟨k, entry, hfirst⟩ | hnone
      · have hhealthy := h entry hfirst.mem
        obtain ⟨outcome, hsettles⟩ := settles_of_isDecisive (0 + k) hfirst.2.1
        obtain ⟨verdict, rfl, hverdict⟩ := hhealthy.isMatch_of_settles hsettles
        refine ⟨verdict, outcome_inspectFrom_of_isEarliest hfirst hsettles, ?_⟩
        exact iff_of_true hverdict
          ⟨hnames, entry, hfirst.mem, hhealthy.isDecisive_iff.mp hfirst.2.1⟩
      · refine ⟨.clean, outcome_inspectFrom_of_forall_not hnone, ?_⟩
        refine iff_of_false Bool.false_ne_true ?_
        rintro ⟨-, entry, hentry, hincriminates⟩
        exact hnone entry hentry ((h entry hentry).isDecisive_iff.mpr hincriminates)

end healthy

section reordered

variable {b b' : ByteArray} {entry' : Zip.Entry}

theorem IsHealthy.of_isSameEntry (h : i.IsHealthy b entry)
    (hsame : Zip.IsSameEntry b b' entry entry') : i.IsHealthy b' entry' := by
  obtain ⟨e, hopen, hdecodes⟩ := h
  obtain ⟨offset, rfl, hopen'⟩ := hsame.open_eq
  rw [hopen] at hopen'
  exact ⟨_, hopen', hdecodes⟩

theorem incriminates_iff_of_isSameEntry (hsame : Zip.IsSameEntry b b' entry entry') :
    i.Incriminates b' entry' ↔ i.Incriminates b entry := by
  obtain ⟨offset, rfl, hopen'⟩ := hsame.open_eq
  constructor
  · intro h
    cases h with
    | oversized hname hsize => exact .oversized hname hsize
    | flagged hname hopened hdecode hmem hflagged =>
        rw [hopen'] at hopened
        cases hopen : entry.open b with
        | abandoned | unreadable fault =>
            rw [hopen] at hopened
            cases hopened
        | opened e =>
            rw [hopen] at hopened
            obtain rfl := Zip.Opening.opened.inj hopened
            exact .flagged hname hopen hdecode hmem hflagged
  · intro h
    cases h with
    | oversized hname hsize => exact .oversized hname hsize
    | flagged hname hopen hdecode hmem hflagged =>
        rw [hopen] at hopen'
        exact .flagged hname hopen' hdecode hmem hflagged

/-- Nothing that decides whether an archive is flagged has to do with the order of its entries. -/
theorem isFlaggedBy_iff_of_isReordering (h : a'.IsReordering a) :
    i.IsFlaggedBy a' ↔ i.IsFlaggedBy a := by
  constructor
  · rintro ⟨hnames, entry', hentry', hincriminates⟩
    obtain ⟨entry, hentry, hsame⟩ := h.exists_before hentry'
    refine ⟨?_, entry, hentry, (incriminates_iff_of_isSameEntry hsame).mp hincriminates⟩
    intro other hother
    obtain ⟨other', hother', hsame'⟩ := h.exists_after hother
    rw [← hsame'.name_eq]
    exact hnames other' hother'
  · rintro ⟨hnames, entry, hentry, hincriminates⟩
    obtain ⟨entry', hentry', hsame⟩ := h.exists_after hentry
    refine ⟨?_, entry', hentry', (incriminates_iff_of_isSameEntry hsame).mpr hincriminates⟩
    intro other' hother'
    obtain ⟨other, hother, hsame'⟩ := h.exists_before hother'
    rw [hsame'.name_eq]
    exact hnames other hother

end reordered

/-- If every entry of an archive can be opened and every class container within the limit decoded,
then the archive has a verdict in every order of its entries. Whether it is flagged is the same in
all of them: it is if no name begins with the marker and some class container is too large or holds
a flagged class. -/
theorem flagged_in_every_order (i : Inspector) (a a' : Zip.Archive)
    (hopen : Zip.Archive.open a.bytes = .ok a) (hopen' : Zip.Archive.open a'.bytes = .ok a')
    (horder : a'.IsReordering a) (h : ∀ entry ∈ a.entries, i.IsHealthy a.bytes entry) :
    ∃ verdict verdict', (i.inspect .never a.bytes).outcome = .ok verdict ∧
      (i.inspect .never a'.bytes).outcome = .ok verdict' ∧
      verdict'.isFlagged = verdict.isFlagged ∧
      (verdict.isFlagged = true ↔
        (∀ entry ∈ a.entries, ¬ neutralLibraryMarker.toList <+: entry.name.toList) ∧
        ∃ entry ∈ a.entries, i.Incriminates a.bytes entry) := by
  have h' : ∀ entry ∈ a'.entries, i.IsHealthy a'.bytes entry := by
    intro entry' hentry'
    obtain ⟨entry, hentry, hsame⟩ := horder.exists_before hentry'
    exact (h entry hentry).of_isSameEntry hsame
  obtain ⟨verdict, hverdict, hflagged⟩ := exists_verdict_of_healthy hopen h
  obtain ⟨verdict', hverdict', hflagged'⟩ := exists_verdict_of_healthy hopen' h'
  refine ⟨verdict, verdict', hverdict, hverdict', ?_, hflagged⟩
  rw [Bool.eq_iff_iff, hflagged', hflagged]
  exact isFlaggedBy_iff_of_isReordering horder

/-- An inspector that finds a flagged class in every container of at most 25 bytes. -/
def findingVendor : Inspector := ⟨⟨[], ["com.vendor"]⟩, 25, fun _ _ => .ok ["com.vendor.Push"]⟩

theorem isArchive_containersArchive (headers : List Zip.Header)
    (h : headers ∈ [containerHeaders, containerHeaders.reverse]) :
    Zip.IsArchive (containersArchive headers) containersFront 0 headers [] := by
  have hfits : ∀ headers ∈ [containerHeaders, containerHeaders.reverse],
      (Zip.directory headers).length < 2 ^ 32 ∧ headers.length < 2 ^ 16 ∧
        Bytes.u32? (containersArchive headers)
          (containersFront.length + (Zip.directory headers).length - 20) ≠
            some Zip.wideLocatorMark := by
    decide +kernel
  obtain ⟨hdirectory, hcount, hnarrow⟩ := hfits headers h
  exact .of_uncommented (containersArchive_eq headers) (by decide +kernel) hdirectory hcount hnarrow

/-- One order of the two containers ends with a flagged class, the other one with a size. -/
theorem flagged_in_every_order_containers :
    ∃ a a', Zip.Archive.open a.bytes = .ok a ∧ Zip.Archive.open a'.bytes = .ok a' ∧
      a'.IsReordering a ∧ (∀ entry ∈ a.entries, findingVendor.IsHealthy a.bytes entry) ∧
      (findingVendor.inspect .never a.bytes).outcome =
        .ok (.classMatch "classes.dex" "com.vendor.Push") ∧
      (findingVendor.inspect .never a'.bytes).outcome =
        .ok (.oversizedClassContainer "classes.dex" 30) ∧
      ∃ entry ∈ a.entries, findingVendor.Incriminates a.bytes entry := by
  have hread : List.Forall₂ (fun h entry => h.readAs 0 = .ok entry) containerHeaders
      (containerHeaders.map Zip.Header.plainEntry) := by
    decide +kernel
  have hlies : ∀ entry ∈ containerHeaders.map Zip.Header.plainEntry,
      Zip.LiesBefore limitedArchive containersFront.length entry := by
    decide +kernel
  obtain ⟨hopen, entries', hopen', horder⟩ :=
    (isArchive_containersArchive containerHeaders (by simp)).isReordering
      (isArchive_containersArchive containerHeaders.reverse (by simp))
      (List.reverse_perm containerHeaders).symm hread hlies
  have hruns : (findingVendor.inspect .never limitedArchive).outcome =
        .ok (.classMatch "classes.dex" "com.vendor.Push") ∧
      (findingVendor.inspect .never (containersArchive containerHeaders.reverse)).outcome =
        .ok (.oversizedClassContainer "classes.dex" 30) := by
    decide +kernel
  have hhealthy : ∀ entry ∈ containerHeaders.map Zip.Header.plainEntry,
      findingVendor.IsHealthy limitedArchive entry := by
    have hopened : ∀ entry ∈ containerHeaders.map Zip.Header.plainEntry,
        (match entry.open limitedArchive with | .opened _ => true | _ => false) = true := by
      decide +kernel
    intro entry hentry
    have h := hopened entry hentry
    split at h
    · rename_i e hopened
      exact ⟨e, hopened, fun _ _ => ⟨_, rfl⟩⟩
    · cases h
  obtain ⟨verdict, verdict', hverdict, hverdict', hsame, hflagged⟩ :=
    flagged_in_every_order findingVendor ⟨limitedArchive, _⟩ ⟨_, entries'⟩ hopen hopen' horder
      hhealthy
  have hmatch : verdict.isFlagged = true := by
    obtain rfl := Outcome.ok.inj (hruns.1.symm.trans hverdict)
    rfl
  exact ⟨⟨limitedArchive, _⟩, ⟨_, entries'⟩, hopen, hopen', horder, hhealthy, hruns.1, hruns.2,
    (hflagged.mp hmatch).2⟩

end Inspector

end VendorScreen
