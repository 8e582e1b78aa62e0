import VendorScreen.Proofs.Query.Decision
import VendorScreen.Proofs.Zip.Removal

namespace VendorScreen

/-!
# Assets

An entry that is neither a class container nor a marker is not judged, and an archive is judged as
it would be without it. But every entry is opened before its name is looked at, so one that cannot
be opened ends the walk that comes to it, and what lies behind it is never judged.
-/

/-- The name is neither that of a class container nor that of a marker. -/
def IsAssetName (name : String) : Prop :=
  isClassContainer name = false ∧ ¬ neutralLibraryMarker.toList <+: name.toList

instance (name : String) : Decidable (IsAssetName name) :=
  inferInstanceAs (Decidable (_ ∧ _))

/-- The index that an entry had before the one with index `k` was taken out. -/
def indexBefore (k index : ℕ) : ℕ := if index < k then index else index + 1

theorem indexBefore_of_lt {k index : ℕ} (h : index < k) : indexBefore k index = index := if_pos h

theorem indexBefore_add (k n : ℕ) : indexBefore k (k + n) = k + 1 + n := by
  rw [indexBefore, if_neg (by omega)]
  omega

/-- The same error in an archive whose entries have other numbers. -/
def QueryError.renumbered (f : ℕ → ℕ) : QueryError → QueryError
  | archive (.unreadableEntry index fault) => archive (.unreadableEntry (f index) fault)
  | cause => cause

theorem QueryError.kind_renumbered (f : ℕ → ℕ) (cause : QueryError) :
    (cause.renumbered f).kind = cause.kind := by
  cases cause with
  | archive fault => cases fault <;> rfl
  | host | decode | cancelled => rfl

namespace QueryReport

def renumbered (f : ℕ → ℕ) (r : QueryReport) : QueryReport :=
  { r with outcome := r.outcome.mapError (QueryError.renumbered f) }

theorem renumbered_preceded (f : ℕ → ℕ) (r : QueryReport) (calls : List Call) :
    (r.preceded calls).renumbered f = (r.renumbered f).preceded calls := rfl

theorem mapError_kind_renumbered (f : ℕ → ℕ) (r : QueryReport) :
    (r.renumbered f).outcome.mapError QueryError.kind = r.outcome.mapError QueryError.kind := by
  obtain ⟨outcome, calls⟩ := r
  cases outcome with
  | ok verdict => rfl
  | error cause => exact congrArg Outcome.error (cause.kind_renumbered f)
  | abandoned => rfl

end QueryReport

namespace Inspector

variable {i : Inspector} {flag : StopFlag} {b b' : ByteArray} {index decodings : ℕ}
  {entries entries' : List Zip.Entry} {entry : Zip.Entry}

theorem judgeContents_movedTo (i : Inspector) (e : Zip.OpenEntry) (offset : ℕ) :
    i.judgeContents { e with entry := e.entry.movedTo offset } = i.judgeContents e := rfl

theorem inspectFrom_of_forall₂ (h : List.Forall₂ (Zip.IsSameEntry b b') entries entries') :
    i.inspectFrom flag b' index decodings entries' =
      i.inspectFrom flag b index decodings entries := by
  induction h generalizing index decodings with
  | nil => rfl
  | @cons entry entry' rest rest' hsame _ ih =>
      obtain ⟨offset, rfl, hopen⟩ := hsame.open_eq
      rw [inspectFrom, inspectFrom, hopen]
      cases entry.open b with
      | abandoned | unreadable fault => rfl
      | opened e =>
          simp only [Zip.Opening.movedTo, judgeContents_movedTo, ih]
          rfl

/-- No error of a decoder names an entry by its number. -/
theorem mapError_renumbered_of_judgeContents {e : Zip.OpenEntry}
    {outcome : Outcome QueryError Verdict} (h : i.judgeContents e = .decided outcome)
    (f : ℕ → ℕ) : outcome.mapError (QueryError.renumbered f) = outcome := by
  unfold judgeContents at h
  cases hdecode : i.decoder e.source e.entry.size with
  | error fault =>
      simp only [hdecode, Judgement.decided.injEq] at h
      rw [← h]
      rfl
  | ok names =>
      cases hfind : names.find? i.watchlist.isFlagged with
      | none => simp [hdecode, hfind] at h
      | some className =>
          simp only [hdecode, hfind, Judgement.decided.injEq] at h
          rw [← h]
          rfl

/-- A walk that counts its entries from another number on differs in that number only. -/
theorem inspectFrom_renumbered {f : ℕ → ℕ} {index' : ℕ} (hf : ∀ n, f (index + n) = index' + n) :
    i.inspectFrom .never b index' decodings entries =
      (i.inspectFrom .never b index decodings entries).renumbered f := by
  induction entries generalizing index index' decodings with
  | nil => rfl
  | cons entry rest ih =>
      have hfirst : f index = index' := hf 0
      have hnext (n : ℕ) : f (index + 1 + n) = index' + 1 + n := by
        rw [Nat.add_assoc, Nat.add_assoc]
        exact hf (1 + n)
      rw [inspectFrom, inspectFrom]
      cases entry.open b with
      | abandoned => rfl
      | unreadable fault => exact hfirst ▸ rfl
      | opened e =>
          simp only [StopFlag.never_apply, Bool.false_eq_true, if_false]
          split
          · split
            · rfl
            · cases hjudged : i.judgeContents e with
              | decided outcome =>
                  exact congrArg (QueryReport.mk · _)
                    (mapError_renumbered_of_judgeContents hjudged f).symm
              | passed => exact congrArg (QueryReport.preceded _) (ih hnext)
          · exact ih hnext

theorem Settles.mapError_renumbered {outcome : Outcome QueryError Verdict}
    (h : i.Settles b index entry outcome) {f : ℕ → ℕ} (hf : f index = index) :
    outcome.mapError (QueryError.renumbered f) = outcome := by
  cases h with
  | unreadable hopen => simp only [Outcome.mapError, QueryError.renumbered, hf]
  | abandoned | oversized | undecodable | classMatch => rfl

theorem IsDecisive.not_opened (h : i.IsDecisive b entry)
    (hname : isClassContainer entry.name = false) (e : Zip.OpenEntry) :
    entry.open b ≠ .opened e := by
  intro hopen
  exact (Passes.other hopen hname).not_isDecisive h

/-- The walk over the archive comes to the entry with index `k` and ends there. -/
structure StopsAt (i : Inspector) (a : Zip.Archive) (k : ℕ) (entry : Zip.Entry) : Prop where
  unmarked : ∀ other ∈ a.entries, ¬ Zip.IsFoundBy a.bytes neutralLibraryMarker other
  isEarliest : IsEarliest (i.IsDecisive a.bytes) a.entries k entry

/-- A walk that does not end at an asset is the walk without it. -/
theorem inspectFrom_eraseIdx {k : ℕ} (hentry : entries[k]? = some entry)
    (hname : isClassContainer entry.name = false)
    (hmet : ¬ IsEarliest (i.IsDecisive b) entries k entry) :
    i.inspectFrom .never b index decodings entries =
      (i.inspectFrom .never b index decodings (entries.eraseIdx k)).renumbered
        (indexBefore (index + k)) := by
  induction entries generalizing index decodings k with
  | nil => simp at hentry
  | cons first rest ih =>
      cases k with
      | zero =>
          obtain rfl : first = entry := by simpa using hentry
          -- The walk comes to the asset and does not end there, so the asset has been opened.
          have hpass := passes_of_not_isDecisive fun hdecisive =>
            hmet (IsEarliest.zero_iff.mpr ⟨rfl, hdecisive⟩)
          have hskip : i.inspectFrom .never b index decodings (first :: rest) =
              i.inspectFrom .never b (index + 1) decodings rest := by
            cases hpass with
            | other hopen _ => simp [inspectFrom, hopen, hname]
            | unmatched _ hname' => simp [hname] at hname'
          rw [hskip, List.eraseIdx_cons_zero]
          exact inspectFrom_renumbered (indexBefore_add index)
      | succ k =>
          rw [List.eraseIdx_cons_succ]
          rcases i.settles_or_passes b index first with ⟨outcome, hsettles⟩ | hpass
          · -- The walk ends here, and its last entry has a number below that of the missing one.
            obtain ⟨calls, hreport⟩ := inspectFrom_of_settles
              (StopFlag.never_apply (.beforeEntry index decodings)) hsettles
            rw [hreport, hreport]
            have hindex : indexBefore (index + (k + 1)) index = index :=
              indexBefore_of_lt (by omega)
            exact congrArg (QueryReport.mk · calls) (hsettles.mapError_renumbered hindex).symm
          · obtain ⟨calls, decodings', hwalk⟩ := inspectFrom_of_passes
              (StopFlag.never_apply (.beforeEntry index decodings)) hpass
            have hlater : ¬ IsEarliest (i.IsDecisive b) rest k entry := fun hfirst =>
              hmet (IsEarliest.succ_iff.mpr ⟨hpass.not_isDecisive, hfirst⟩)
            rw [hwalk, hwalk, QueryReport.renumbered_preceded, ih (by simpa using hentry) hlater,
              Nat.add_assoc, Nat.add_comm 1]

section archives

variable {a a' : Zip.Archive} {k : ℕ}

theorem inspect_of_isWithout (hopen : Zip.Archive.open a.bytes = .ok a)
    (hopen' : Zip.Archive.open a'.bytes = .ok a') (hwithout : a'.IsWithout a k)
    (hentry : a.entries[k]? = some entry) (hname : IsAssetName entry.name)
    (hmet : ¬ i.StopsAt a k entry) :
    i.inspect .never a.bytes = (i.inspect .never a'.bytes).renumbered (indexBefore k) := by
  have hmarker := hwithout.findName?_eq hentry hname.2
  simp only [inspect, hopen, hopen', hmarker]
  cases hmark : a.findName? neutralLibraryMarker with
  | some marker => rfl
  | none =>
      have hunmarked := (a.findName?_eq_none_iff neutralLibraryMarker).mp hmark
      have hearlier : ¬ IsEarliest (i.IsDecisive a.bytes) a.entries k entry := fun hfirst =>
        hmet ⟨hunmarked, hfirst⟩
      dsimp only
      rw [inspectFrom_eraseIdx hentry hname.1 hearlier, inspectFrom_of_forall₂ hwithout,
        Nat.zero_add]

theorem outcome_inspect_of_stopsAt (hopen : Zip.Archive.open a.bytes = .ok a)
    (hname : isClassContainer entry.name = false) (h : i.StopsAt a k entry) :
    (∃ fault, entry.open a.bytes = .unreadable fault ∧ (i.inspect .never a.bytes).outcome =
      .error (.archive (.unreadableEntry k fault))) ∨
    (Zip.IsTrap a.bytes entry ∧ (i.inspect .never a.bytes).outcome = .abandoned) := by
  have hmark := (a.findName?_eq_none_iff neutralLibraryMarker).mpr h.unmarked
  have hwalk : i.inspect .never a.bytes = i.inspectFrom .never a.bytes 0 0 a.entries := by
    simp only [inspect, hopen, hmark]
  obtain ⟨outcome, hsettles⟩ := settles_of_isDecisive (0 + k) h.isEarliest.2.1
  have houtcome : (i.inspectFrom .never a.bytes 0 0 a.entries).outcome = outcome :=
    outcome_inspectFrom_of_isEarliest h.isEarliest hsettles
  rw [hwalk, houtcome]
  cases hsettles with
  | abandoned hopened => exact .inr ⟨(entry.open_eq_abandoned_iff a.bytes).mp hopened, rfl⟩
  | unreadable hopened => exact .inl ⟨_, hopened, by rw [Nat.zero_add]⟩
  | oversized _ hname' | undecodable _ hname' | classMatch _ hname' => simp [hname] at hname'

end archives

end Inspector

/-- An archive without one of its assets is judged as with it, but for the numbers of the entries
behind it, unless the walk comes to the asset and cannot open it. Then the judgement is an error
with its number, or none at all, whatever else the archive holds. -/
theorem assets_that_open_are_ignored (i : Inspector) (a a' : Zip.Archive) (k : ℕ)
    (entry : Zip.Entry) (hopen : Zip.Archive.open a.bytes = .ok a)
    (hopen' : Zip.Archive.open a'.bytes = .ok a') (hwithout : a'.IsWithout a k)
    (hentry : a.entries[k]? = some entry) (hname : IsAssetName entry.name) :
    (∀ e, entry.open a.bytes = .opened e → ¬ i.StopsAt a k entry) ∧
    (¬ i.StopsAt a k entry →
      i.inspect .never a.bytes = (i.inspect .never a'.bytes).renumbered (indexBefore k) ∧
      (i.inspect .never a.bytes).outcome.mapError QueryError.kind =
        (i.inspect .never a'.bytes).outcome.mapError QueryError.kind) ∧
    (i.StopsAt a k entry →
      (∃ fault, entry.open a.bytes = .unreadable fault ∧
        (i.inspect .never a.bytes).outcome = .error (.archive (.unreadableEntry k fault))) ∨
      (Zip.IsTrap a.bytes entry ∧ (i.inspect .never a.bytes).outcome = .abandoned)) := by
  refine ⟨?_, ?_, Inspector.outcome_inspect_of_stopsAt hopen hname.1⟩
  · intro e hopened hstops
    exact hstops.isEarliest.2.1.not_opened hname.1 e hopened
  · intro hmet
    have hsame := Inspector.inspect_of_isWithout hopen hopen' hwithout hentry hname hmet
    refine ⟨hsame, ?_⟩
    rw [hsame, QueryReport.mapError_kind_renumbered]

def emptyLocal (method : UInt8) (name : List UInt8) : List UInt8 :=
  [0x50, 0x4b, 3, 4, 20, 0, 0, 0, method, 0, 0, 0, 0x21, 0, 0, 0, 0, 0, 0, 0, 0, 0, 0, 0, 0, 0,
    name.length.toUInt8, 0, 0, 0] ++ name

theorem length_nil_lt : ([] : List UInt8).length < 2 ^ 16 := by decide

/-- The directory header of an entry that has no data, whatever size it declares. -/
def emptyHeader (method : UInt16) (size offset : UInt32) (name : List UInt8)
    (name_lt : name.length < 2 ^ 16) : Zip.Header where
  flags := 0
  method := method
  crc := 0
  compressedSize := 0
  size := size
  offset := offset
  name := name
  extra := []
  comment := []
  notes := ⟨0x0314, 20, 0, 0x21, 0, 0, 0⟩
  name_lt := name_lt
  extra_lt := length_nil_lt
  comment_lt := length_nil_lt

/-- The bytes of `b.txt`. -/
def noteName : List UInt8 := [0x62, 0x2e, 0x74, 0x78, 0x74]

/-- The bytes of `a.png`. -/
def imageName : List UInt8 := [0x61, 0x2e, 0x70, 0x6e, 0x67]

/-- The bytes of `classes.dex`. -/
def containerName : List UInt8 :=
  [0x63, 0x6c, 0x61, 0x73, 0x73, 0x65, 0x73, 0x2e, 0x64, 0x65, 0x78]

def noteHeader : Zip.Header := emptyHeader 0 0 0 noteName (by decide)

/-- The method of the image is not supported. -/
def imageHeader : Zip.Header := emptyHeader 12 0 35 imageName (by decide)

/-- The class container is larger than the limit. -/
def containerHeader : Zip.Header := emptyHeader 0 15000001 70 containerName (by decide)

def assetFront : List UInt8 :=
  emptyLocal 0 noteName ++ (emptyLocal 12 imageName ++ emptyLocal 0 containerName)

def assetHeaders : List Zip.Header := [noteHeader, imageHeader, containerHeader]

def assetEntries : List Zip.Entry := assetHeaders.map Zip.Header.plainEntry

def assetBytes (headers : List Zip.Header) : List UInt8 :=
  assetFront ++ (Zip.directory headers ++ Zip.endRecord headers.length
    (Zip.directory headers).length assetFront.length [])

@[irreducible] def assetArchive (headers : List Zip.Header) : ByteArray :=
  ⟨(assetBytes headers).toArray⟩

theorem assetArchive_eq (headers : List Zip.Header) :
    assetArchive headers = (assetBytes headers).toByteArray := by
  rw [assetArchive]
  exact ByteArray.ext List.data_toByteArray.symm

theorem isArchive_assetArchive (headers : List Zip.Header)
    (h : headers ∈ [assetHeaders, assetHeaders.eraseIdx 0, assetHeaders.eraseIdx 1]) :
    Zip.IsArchive (assetArchive headers) assetFront 0 headers [] := by
  have hfits : ∀ headers ∈ [assetHeaders, assetHeaders.eraseIdx 0, assetHeaders.eraseIdx 1],
      (Zip.directory headers).length < 2 ^ 32 ∧ headers.length < 2 ^ 16 ∧
        Bytes.u32? (assetArchive headers)
          (assetFront.length + (Zip.directory headers).length - 20) ≠ some Zip.wideLocatorMark := by
    decide +kernel
  obtain ⟨hdirectory, hcount, hnarrow⟩ := hfits headers h
  exact .of_uncommented (assetArchive_eq headers) (by decide +kernel) hdirectory hcount hnarrow

theorem readAs_assetHeaders : List.Forall₂ (fun h entry => h.readAs 0 = .ok entry) assetHeaders
    assetEntries := by
  decide +kernel

theorem liesBefore_of_mem_assetEntries (k : ℕ) : ∀ entry ∈ assetEntries.eraseIdx k,
    Zip.LiesBefore (assetArchive assetHeaders) assetFront.length entry := by
  have hall : ∀ entry ∈ assetEntries,
      Zip.LiesBefore (assetArchive assetHeaders) assetFront.length entry := by
    decide +kernel
  intro entry hentry
  exact hall entry (List.mem_of_mem_eraseIdx hentry)

def wholeArchive : Zip.Archive := ⟨assetArchive assetHeaders, assetEntries⟩

def lackingArchive (k : ℕ) : Zip.Archive :=
  ⟨assetArchive (assetHeaders.eraseIdx k), assetEntries.eraseIdx k⟩

theorem isWithout_lackingArchive (k : ℕ) (hk : k < 2) :
    Zip.Archive.open wholeArchive.bytes = .ok wholeArchive ∧
    Zip.Archive.open (lackingArchive k).bytes = .ok (lackingArchive k) ∧
      (lackingArchive k).IsWithout wholeArchive k := by
  have hwhole := isArchive_assetArchive assetHeaders (by simp)
  have hlacking := isArchive_assetArchive (assetHeaders.eraseIdx k) (by interval_cases k <;> simp)
  exact hwhole.isWithout hlacking readAs_assetHeaders (liesBefore_of_mem_assetEntries k)

theorem exists_open_note : ∃ e, noteHeader.plainEntry.open wholeArchive.bytes = .opened e := by
  have hstart : Zip.dataStart wholeArchive.bytes noteHeader.plainEntry = .ok 35 := by
    decide +kernel
  unfold Zip.Entry.open
  rw [hstart]
  exact ⟨_, rfl⟩

theorem open_image : imageHeader.plainEntry.open wholeArchive.bytes =
    .unreadable (.unsupported .compressionMethod) := by
  have hstart : Zip.dataStart wholeArchive.bytes imageHeader.plainEntry = .ok 70 := by
    decide +kernel
  unfold Zip.Entry.open
  rw [hstart]
  rfl

theorem stopsAt_image : Inspector.builtin.StopsAt wholeArchive 1 imageHeader.plainEntry := by
  have hunmarked : wholeArchive.findName? neutralLibraryMarker = none := by decide +kernel
  refine ⟨(Zip.Archive.findName?_eq_none_iff ..).mp hunmarked, rfl,
    ⟨1, _, .unreadable open_image⟩, ?_⟩
  intro j hj other hother hdecisive
  obtain rfl : j = 0 := by omega
  obtain rfl : noteHeader.plainEntry = other := Option.some.inj hother
  obtain ⟨e, hopen⟩ := exists_open_note
  exact hdecisive.not_opened (by decide +kernel) e hopen

/-- The sample is judged as it would be without the note, and ends in an error that it would not end
in without the image. -/
theorem assets_that_open_are_ignored_sample :
    Zip.Archive.open wholeArchive.bytes = .ok wholeArchive ∧
    Zip.Archive.open (lackingArchive 0).bytes = .ok (lackingArchive 0) ∧
    (lackingArchive 0).IsWithout wholeArchive 0 ∧
    (lackingArchive 1).IsWithout wholeArchive 1 ∧
    Inspector.builtin.inspect .never wholeArchive.bytes =
      (Inspector.builtin.inspect .never (lackingArchive 0).bytes).renumbered (indexBefore 0) ∧
    Inspector.builtin.StopsAt wholeArchive 1 imageHeader.plainEntry ∧
    (Inspector.builtin.inspect .never wholeArchive.bytes).outcome =
      .error (.archive (.unreadableEntry 1 (.unsupported .compressionMethod))) := by
  obtain ⟨hopen, hopen₀, hwithout₀⟩ := isWithout_lackingArchive 0 (by decide)
  obtain ⟨-, hopen₁, hwithout₁⟩ := isWithout_lackingArchive 1 (by decide)
  obtain ⟨e, hnote⟩ := exists_open_note
  have hignored := assets_that_open_are_ignored Inspector.builtin wholeArchive (lackingArchive 0)
    0 noteHeader.plainEntry hopen hopen₀ hwithout₀ rfl (by decide +kernel)
  have hmet := assets_that_open_are_ignored Inspector.builtin wholeArchive (lackingArchive 1)
    1 imageHeader.plainEntry hopen hopen₁ hwithout₁ rfl (by decide +kernel)
  refine ⟨hopen, hopen₀, hwithout₀, hwithout₁, (hignored.2.1 (hignored.1 e hnote)).1,
    stopsAt_image, ?_⟩
  rcases hmet.2.2 stopsAt_image with ⟨fault, hfault, houtcome⟩ | ⟨htrap, -⟩
  · rw [open_image, Zip.Opening.unreadable.injEq] at hfault
    rw [houtcome, ← hfault]
  · exact absurd htrap.hasItem (by decide)

/-- An asset that cannot be opened hides a class container that would be flagged without it. -/
theorem unreadable_asset_hides_container :
    ∃ a a' entry, Zip.Archive.open a.bytes = .ok a ∧ Zip.Archive.open a'.bytes = .ok a' ∧
      a'.IsWithout a 1 ∧ a.entries[1]? = some entry ∧ IsAssetName entry.name ∧
      (Inspector.builtin.inspect .never a.bytes).outcome =
        .error (.archive (.unreadableEntry 1 (.unsupported .compressionMethod))) ∧
      (Inspector.builtin.inspect .never a'.bytes).outcome =
        .ok (.oversizedClassContainer "classes.dex" 15000001) := by
  obtain ⟨hopen, hopen₁, hwithout⟩ := isWithout_lackingArchive 1 (by decide)
  refine ⟨wholeArchive, lackingArchive 1, imageHeader.plainEntry, hopen, hopen₁, hwithout, rfl,
    by decide +kernel, ?_, by decide +kernel⟩
  rcases Inspector.outcome_inspect_of_stopsAt hopen (by decide +kernel) stopsAt_image with
    ⟨fault, hfault, houtcome⟩ | ⟨htrap, -⟩
  · rw [open_image, Zip.Opening.unreadable.injEq] at hfault
    rw [houtcome, ← hfault]
  · exact absurd htrap.hasItem (by decide)

end VendorScreen
