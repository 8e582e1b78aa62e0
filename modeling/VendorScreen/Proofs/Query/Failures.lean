import VendorScreen.Proofs.Batch.Interleaving
import VendorScreen.Proofs.Dex.Image
import VendorScreen.Proofs.Query.DeclaredSize
import VendorScreen.Proofs.Query.Simulation
import VendorScreen.Proofs.Zip.Removal

namespace VendorScreen

/-!
# Failures

A host may fail where another one answers, and a class container may hold what no decoder takes. A
query that comes to such a place ends there with an error. One that ends with a verdict has come to
none, and so ends with the same verdict where nothing fails.
-/

/-- The first outcome has every value that the second one has. -/
def Outcome.Covers {ε α : Type} (outcome outcome' : Outcome ε α) : Prop :=
  ∀ value, outcome' = .ok value → outcome = .ok value

namespace Outcome.Covers

variable {ε α : Type} {outcome : Outcome ε α}

protected theorem rfl : outcome.Covers outcome := fun _ h => h

theorem error (cause : ε) : outcome.Covers (.error cause) := by
  intro value h
  cases h

theorem abandoned : outcome.Covers .abandoned := by
  intro value h
  cases h

end Outcome.Covers

/-- How an entry opens before and after its body is replaced by one that does not decode. It can be
opened afterwards if it could be before. -/
inductive IsSpoiltOpening (decoder : Decoder) : Zip.Opening → Zip.Opening → Prop
  | opened {e e' : Zip.OpenEntry} {fault : Dex.Fault}
      (hdecode : decoder e'.source e'.entry.size = .error fault) :
      IsSpoiltOpening decoder (.opened e) (.opened e')
  | unreadable (fault fault' : Zip.Fault) :
      IsSpoiltOpening decoder (.unreadable fault) (.unreadable fault')
  | abandoned : IsSpoiltOpening decoder .abandoned .abandoned

inductive IsDamagedEntry (decoder : Decoder) (b b' : ByteArray) (entry entry' : Zip.Entry) : Prop
  | intact (h : Zip.IsSameEntry b b' entry entry')
  | spoilt (hcontainer : isClassContainer entry.name = true) (hname : entry'.name = entry.name)
      (hsize : entry'.size = entry.size)
      (hopening : IsSpoiltOpening decoder (entry.open b) (entry'.open b'))

/-- The archives have the same entries, but for the bodies of some class containers. -/
def Zip.Archive.IsDamaged (decoder : Decoder) (a a' : Zip.Archive) : Prop :=
  List.Forall₂ (IsDamagedEntry decoder a.bytes a'.bytes) a.entries a'.entries

inductive IsDamagedAnswer (decoder : Decoder) :
    Except HostFault ByteArray → Except HostFault ByteArray → Prop
  | same (answer : Except HostFault ByteArray) : IsDamagedAnswer decoder answer answer
  | failed (answer : Except HostFault ByteArray) (fault : HostFault) :
      IsDamagedAnswer decoder answer (.error fault)
  | spoilt {a a' : Zip.Archive} (hopen : Zip.Archive.open a.bytes = .ok a)
      (hopen' : Zip.Archive.open a'.bytes = .ok a') (h : a.IsDamaged decoder a') :
      IsDamagedAnswer decoder (.ok a.bytes) (.ok a'.bytes)

/-- What the second host has to say about the package is what the first one says, but for failures.
About other packages they may say anything. -/
structure Host.IsDamaged (decoder : Decoder) (host host' : Host) (id : String) : Prop where
  components : host'.components id = host.components id ∨
    ∃ fault, host'.components id = .error fault
  archive : IsDamagedAnswer decoder (host.archive id) (host'.archive id)

theorem not_marker_of_isClassContainer {name : String} (h : isClassContainer name = true) :
    ¬ neutralLibraryMarker.toList <+: name.toList := by
  intro hmarker
  rw [isClassContainer, Bool.and_eq_true, List.isPrefixOf_iff_prefix] at h
  have hprefix := List.prefix_of_prefix_length_le h.1 hmarker (by decide)
  exact absurd hprefix (by decide)

namespace IsDamagedEntry

variable {decoder : Decoder} {b b' : ByteArray} {entry entry' : Zip.Entry}

theorem name_eq (h : IsDamagedEntry decoder b b' entry entry') : entry'.name = entry.name := by
  cases h with
  | intact hsame => exact hsame.name_eq
  | spoilt _ hname => exact hname

theorem size_eq (h : IsDamagedEntry decoder b b' entry entry') : entry'.size = entry.size := by
  cases h with
  | intact hsame =>
      obtain ⟨offset, rfl, -⟩ := hsame
      rfl
  | spoilt _ _ hsize => exact hsize

theorem exists_opened (h : IsDamagedEntry decoder b b' entry entry') {e' : Zip.OpenEntry}
    (hopen' : entry'.open b' = .opened e') :
    ∃ e, entry.open b = .opened e ∧ ∀ names,
      decoder e'.source entry'.size = .ok names → decoder e.source entry.size = .ok names := by
  cases h with
  | intact hsame =>
      obtain ⟨offset, rfl, hopen⟩ := hsame.open_eq
      rw [hopen] at hopen'
      cases hopened : entry.open b with
      | abandoned | unreadable fault =>
          rw [hopened] at hopen'
          cases hopen'
      | opened e =>
          rw [hopened] at hopen'
          obtain rfl := Zip.Opening.opened.inj hopen'
          exact ⟨e, rfl, fun names hdecode => hdecode⟩
  | spoilt hcontainer hname hsize hopening =>
      have hentry := Zip.Entry.entry_of_open hopen'
      rw [hopen'] at hopening
      generalize hopened : entry.open b = opening at hopening
      cases hopening with
      | @opened e _ fault hdecode =>
          -- The decoder fails on the new body, whatever it made of the old one.
          refine ⟨e, rfl, ?_⟩
          intro names hnames
          rw [hentry] at hdecode
          rw [hdecode] at hnames
          cases hnames

end IsDamagedEntry

/-- The lookup does not notice that class containers are damaged. -/
theorem Zip.Archive.IsDamaged.findName?_eq {decoder : Decoder} {a a' : Zip.Archive}
    (h : a.IsDamaged decoder a') :
    a'.findName? neutralLibraryMarker = a.findName? neutralLibraryMarker := by
  apply Zip.Archive.findName?_congr
  apply List.Forall₂.imp _ h
  intro entry entry' hdamaged
  refine ⟨hdamaged.name_eq, ?_⟩
  intro hmarker
  cases hdamaged with
  | intact hsame => exact hsame.isOk_dataStart
  | spoilt hcontainer => exact absurd hmarker (not_marker_of_isClassContainer hcontainer)

namespace Inspector

variable {i : Inspector} {flag : StopFlag} {b b' : ByteArray} {index decodings : ℕ}
  {entry entry' : Zip.Entry} {entries entries' : List Zip.Entry} {host host' : Host} {id : String}

theorem Settles.of_isDamagedEntry (h : IsDamagedEntry i.decoder b b' entry entry')
    {verdict : Verdict} (hsettles : i.Settles b' index entry' (.ok verdict)) :
    i.Settles b index entry (.ok verdict) := by
  cases hsettles with
  | oversized hopen' hcontainer hlarge =>
      obtain ⟨e, hopen, -⟩ := h.exists_opened hopen'
      rw [h.name_eq] at hcontainer ⊢
      rw [h.size_eq] at hlarge ⊢
      exact .oversized hopen hcontainer hlarge
  | classMatch hopen' hcontainer hwithin hdecode hfirst =>
      obtain ⟨e, hopen, hnames⟩ := h.exists_opened hopen'
      rw [h.name_eq] at hcontainer ⊢
      rw [h.size_eq] at hwithin
      exact .classMatch hopen hcontainer hwithin (hnames _ hdecode) hfirst

theorem Passes.of_isDamagedEntry (h : IsDamagedEntry i.decoder b b' entry entry')
    (hpass : i.Passes b' entry') : i.Passes b entry := by
  cases hpass with
  | other hopen' hname =>
      obtain ⟨e, hopen, -⟩ := h.exists_opened hopen'
      rw [h.name_eq] at hname
      exact .other hopen hname
  | unmatched hopen' hcontainer hwithin hdecode hnone =>
      obtain ⟨e, hopen, hnames⟩ := h.exists_opened hopen'
      rw [h.name_eq] at hcontainer
      rw [h.size_eq] at hwithin
      exact .unmatched hopen hcontainer hwithin (hnames _ hdecode) hnone

theorem isComparison_covers : IsComparison Outcome.Covers where
  same _ := Outcome.Covers.rfl
  noVerdict _ h' := fun verdict hverdict => absurd hverdict (h' verdict)

theorem keepsUp_of_isDamagedEntry (h : IsDamagedEntry i.decoder b b' entry entry') :
    KeepsUp Outcome.Covers i i b b' entry entry' := by
  refine ⟨?_, Passes.of_isDamagedEntry h, ?_⟩
  · rw [decodeCalls, decodeCalls, h.name_eq, h.size_eq]
  · intro index outcome hsettles
    cases outcome with
    | ok verdict => exact .inl (hsettles.of_isDamagedEntry h)
    | error cause => exact .inr fun other => Outcome.Covers.error cause
    | abandoned => exact .inr fun other => Outcome.Covers.abandoned

/-- A walk that ends with a verdict has passed intact entries only, and ends at one. -/
theorem covers_inspectFrom
    (h : List.Forall₂ (IsDamagedEntry i.decoder b b') entries entries') :
    (i.inspectFrom flag b index decodings entries).outcome.Covers
      (i.inspectFrom flag b' index decodings entries').outcome :=
  compare_inspectFrom isComparison_covers
    (List.Forall₂.imp (fun _ _ hentry => keepsUp_of_isDamagedEntry hentry) h)

theorem covers_inspect {a a' : Zip.Archive} (hopen : Zip.Archive.open a.bytes = .ok a)
    (hopen' : Zip.Archive.open a'.bytes = .ok a') (h : a.IsDamaged i.decoder a') :
    (i.inspect flag a.bytes).outcome.Covers (i.inspect flag a'.bytes).outcome := by
  simp only [inspect, hopen, hopen', h.findName?_eq]
  cases a.findName? neutralLibraryMarker with
  | some marker => exact Outcome.Covers.rfl
  | none => exact covers_inspectFrom h

theorem covers_classifyArchive
    (h : IsDamagedAnswer i.decoder (host.archive id) (host'.archive id)) :
    (i.classifyArchive host flag id).outcome.Covers
      (i.classifyArchive host' flag id).outcome := by
  unfold classifyArchive
  cases flag .beforeArchive with
  | true => exact Outcome.Covers.rfl
  | false =>
      simp only [Bool.false_eq_true, if_false]
      generalize host.archive id = answer at h
      generalize host'.archive id = answer' at h
      cases h with
      | same => exact Outcome.Covers.rfl
      | failed _ fault => exact Outcome.Covers.error _
      | spoilt hopen hopen' h => exact covers_inspect hopen hopen' h

theorem covers_classify (h : host.IsDamaged i.decoder host' id) :
    (i.classify host flag id).outcome.Covers (i.classify host' flag id).outcome := by
  unfold classify
  cases i.watchlist.isSkipped id with
  | true => exact Outcome.Covers.rfl
  | false =>
      cases i.watchlist.isFlagged id with
      | true => exact Outcome.Covers.rfl
      | false =>
          simp only [Bool.false_eq_true, if_false]
          rcases h.components with hsame | ⟨fault, hfault⟩
          · rw [hsame]
            cases host.components id with
            | error fault => exact Outcome.Covers.rfl
            | ok components =>
                dsimp only
                split
                · exact Outcome.Covers.rfl
                · exact covers_classifyArchive h.archive
          · rw [hfault]
            exact Outcome.Covers.error _

end Inspector

/-- Where answers of the host are replaced by failures, and bodies of class containers by some that
do not decode, a query ends with the verdict it ended with before, if with any. So nothing is
flagged that was not. -/
theorem failures_only_clear (i : Inspector) (host host' : Host) (id : String)
    (hdamaged : host.IsDamaged i.decoder host' id) :
    (∀ (flag : StopFlag) (verdict : Verdict),
      (i.classify host' flag id).outcome = .ok verdict →
        (i.classify host flag id).outcome = .ok verdict) ∧
    ∀ w w' : Waiting, w.IsPatient → (i.ask host' w' id).value = some true →
      (i.ask host w id).value = some true := by
  have hverdict (flag : StopFlag) :
      (i.classify host flag id).outcome.Covers (i.classify host' flag id).outcome :=
    Inspector.covers_classify hdamaged
  refine ⟨hverdict, ?_⟩
  intro w w' hpatient hflagged
  rw [Inspector.ask_eq_some_true_iff hpatient, QueryReport.isFlagged?_eq_some_true_iff]
  obtain ⟨verdict, houtcome, hmatch⟩ :=
    (QueryReport.isFlagged?_eq_some_true_iff _).mp (Inspector.isFlagged?_of_ask hflagged)
  exact ⟨verdict, hverdict .never verdict houtcome, hmatch⟩

section written

/-- The item that is written in place of another one is that one, or a class container that does
not decode, however it is read. -/
inductive IsDamagedItem (decoder : Decoder) (item item' : Zip.Item) : Prop
  | intact (h : item' = item)
  | spoilt (hcontainer : isClassContainer item.name = true) (hname : item'.name = item.name)
      (hsize : item'.content.size = item.content.size)
      (hdecode : ∀ source : ByteSource, source.drain = .ok item'.content →
        ∃ fault, decoder source item'.content.size = .error fault)

variable {decoder : Decoder} {b b' : ByteArray} {start start' : ℕ}

theorem isDamagedEntry_of_holds {item item' : Zip.Item} (h : IsDamagedItem decoder item item')
    (hholds : Bytes.Holds b start item.record)
    (hholds' : Bytes.Holds b' start' item'.record) :
    IsDamagedEntry decoder b b' (item.entry start) (item'.entry start') := by
  cases h with
  | intact h =>
      subst h
      exact .intact (Zip.isSameEntry_of_holds hholds hholds')
  | spoilt hcontainer hname hsize hdecode =>
      refine .spoilt hcontainer hname hsize ?_
      obtain ⟨e, hopen, -⟩ := (Zip.delivers_of_holds hholds).body
      obtain ⟨e', hopen', hbody⟩ := (Zip.delivers_of_holds hholds').body
      obtain ⟨fault, hfault⟩ := hdecode _ hbody
      rw [hopen, hopen']
      apply IsSpoiltOpening.opened
      rw [Zip.Entry.entry_of_open hopen']
      exact hfault

/-- An archive that is written with damaged items is damaged. -/
theorem isDamagedEntry_of_items {items items' : List Zip.Item}
    (h : List.Forall₂ (IsDamagedItem decoder) items items')
    (hholds : Bytes.Holds b start (Zip.records items))
    (hholds' : Bytes.Holds b' start' (Zip.records items')) :
    List.Forall₂ (IsDamagedEntry decoder b b') (Zip.entriesFrom start items)
      (Zip.entriesFrom start' items') := by
  induction h generalizing start start' with
  | nil => exact .nil
  | cons hitem _ ih =>
      rw [Zip.records, List.flatMap_cons, Bytes.holds_append] at hholds hholds'
      exact .cons (isDamagedEntry_of_holds hitem hholds.1 hholds'.1) (ih hholds.2 hholds'.2)

end written

def vendorItem : Zip.Item :=
  ⟨"classes.dex", Dex.compactImage 0 3 5 ["Lcom/tencent/A;"], ⟨0x0314, 20, 0, 0x21, 0, 0, 0⟩,
    by decide⟩

/-- The same item with the classes of the given descriptors in it. -/
def classItem (descriptors : List String) : Zip.Item :=
  { vendorItem with content := Dex.compactImage 0 3 5 descriptors }

def plainItem : Zip.Item :=
  ⟨"classes2.dex", Dex.compactImage 0 3 5 ["La/B;"], ⟨0x0314, 20, 0, 0x21, 0, 0, 0⟩, by decide⟩

def spoiltItem : Zip.Item :=
  { plainItem with content := ⟨Array.replicate plainItem.content.size 0⟩ }

@[irreducible] def zippedBytes (items : List Zip.Item) : ByteArray :=
  ⟨(Zip.zipped items []).toArray⟩

theorem zippedBytes_eq (items : List Zip.Item) :
    zippedBytes items = (Zip.zipped items []).toByteArray := by
  rw [zippedBytes]
  exact ByteArray.ext List.data_toByteArray.symm

/-- An archive that is written from items, within the limits of its fields. -/
theorem isArchive_zippedBytes {items : List Zip.Item} (hcount : items.length < 2 ^ 16)
    (hrecords : (Zip.records items).length < 2 ^ 32)
    (hdirectory : (Zip.directory (Zip.headersFrom 0 items)).length < 2 ^ 32)
    (hnarrow : Bytes.u32? (zippedBytes items) ((Zip.records items).length +
      (Zip.directory (Zip.headersFrom 0 items)).length - 20) ≠ some Zip.wideLocatorMark) :
    Zip.IsArchive (zippedBytes items) (Zip.records items) 0 (Zip.headersFrom 0 items) [] := by
  refine .of_uncommented ?_ hrecords hdirectory ?_ hnarrow
  · rw [zippedBytes_eq, Zip.zipped, Zip.length_headersFrom]
  · rwa [Zip.length_headersFrom]

/-- The archive of the item of the vendor and one more. -/
def vendorArchive (item : Zip.Item) : Zip.Archive :=
  ⟨zippedBytes [vendorItem, item], Zip.entriesFrom 0 [vendorItem, item]⟩

theorem isArchive_vendorArchive (item : Zip.Item) (h : item ∈ [plainItem, spoiltItem]) :
    Zip.IsArchive (vendorArchive item).bytes (Zip.records [vendorItem, item]) 0
      (Zip.headersFrom 0 [vendorItem, item]) [] := by
  have hfits : ∀ item ∈ [plainItem, spoiltItem],
      (Zip.records [vendorItem, item]).length < 2 ^ 32 ∧
      (Zip.directory (Zip.headersFrom 0 [vendorItem, item])).length < 2 ^ 32 ∧
      Bytes.u32? (vendorArchive item).bytes ((Zip.records [vendorItem, item]).length +
        (Zip.directory (Zip.headersFrom 0 [vendorItem, item])).length - 20) ≠
          some Zip.wideLocatorMark := by
    decide +kernel
  obtain ⟨hrecords, hdirectory, hnarrow⟩ := hfits item h
  exact isArchive_zippedBytes (by simp) hrecords hdirectory hnarrow

def handingHost (item : Zip.Item) : Host where
  installed := .ok []
  components _ := .ok []
  archive _ := .ok (vendorArchive item).bytes
  icon _ := .ok none
  defaultIcon := .ok none

section sample

variable {item : Zip.Item} (h : item ∈ [plainItem, spoiltItem])
include h

theorem holds_vendorArchive :
    Bytes.Holds (vendorArchive item).bytes 0 (Zip.records [vendorItem, item]) :=
  (isArchive_vendorArchive item h).holds_front

theorem open_vendorArchive :
    Zip.Archive.open (vendorArchive item).bytes = .ok (vendorArchive item) := by
  have hrecords : (Zip.records [vendorItem, item]).length < 2 ^ 32 :=
    (isArchive_vendorArchive item h).offset_lt
  apply (isArchive_vendorArchive item h).open_eq
  exact Zip.forall₂_readAs_headersFrom _ 0 0 (by omega) (by omega)

theorem settles_vendorItem : Inspector.builtin.Settles (vendorArchive item).bytes 0
    (vendorItem.entry 0) (.ok (.classMatch "classes.dex" "com.tencent.A")) := by
  have hholds := holds_vendorArchive h
  rw [Zip.records, List.flatMap_cons, Bytes.holds_append] at hholds
  obtain ⟨e, hopen, hbody⟩ := (Zip.delivers_of_holds hholds.1).body
  have hnames : Dex.classNames vendorItem.content = .ok ["com.tencent.A"] := by decide +kernel
  have hdecode : Inspector.builtin.decoder e.source (vendorItem.entry 0).size =
      .ok ["com.tencent.A"] :=
    (Dex.decode_eq_ok_iff e.source (vendorItem.entry 0).size _).mpr ⟨_, hbody, hnames⟩
  have hfirst : IsEarliest (fun name => Inspector.builtin.watchlist.isFlagged name = true)
      ["com.tencent.A"] 0 "com.tencent.A" :=
    IsEarliest.zero_iff.mpr ⟨rfl, by decide⟩
  exact .classMatch hopen (by decide) (by decide +kernel) hdecode hfirst

theorem outcome_classify_handingHost :
    (Inspector.builtin.classify (handingHost item) .never "net.sample").outcome =
      .ok (.classMatch "classes.dex" "com.tencent.A") := by
  have hcontainers : ∀ entry ∈ (vendorArchive item).entries,
      isClassContainer entry.name = true := by
    rcases List.mem_pair.mp h with rfl | rfl <;> decide +kernel
  have hreaches : Inspector.builtin.ReachesEntries (handingHost item) "net.sample"
      (vendorArchive item) := by
    refine ⟨⟨⟨by decide, by decide⟩, [], rfl, by simp⟩, rfl, open_vendorArchive h, ?_⟩
    intro entry hentry hfound
    exact not_marker_of_isClassContainer (hcontainers entry hentry) hfound.2
  obtain ⟨calls, hwalk⟩ := Inspector.inspectFrom_of_settles
    (StopFlag.never_apply (.beforeEntry 0 0)) (settles_vendorItem h)
  rw [Inspector.outcome_classify_of_reachesEntries hreaches]
  exact congrArg QueryReport.outcome (hwalk _)

end sample

theorem isDamaged_handingHost :
    (handingHost plainItem).IsDamaged Dex.decode (handingHost spoiltItem) "net.sample" := by
  refine ⟨.inl rfl, ?_⟩
  apply IsDamagedAnswer.spoilt (open_vendorArchive (by simp)) (open_vendorArchive (by simp))
  have hspoilt : IsDamagedItem Dex.decode plainItem spoiltItem := by
    refine .spoilt (by decide) rfl (by decide +kernel) ?_
    intro source hsource
    have hfault : Dex.classNames spoiltItem.content = .error (.badMagic (.replicate 8 0)) := by
      decide +kernel
    refine ⟨.badMagic (.replicate 8 0), ?_⟩
    rw [Dex.decode, hsource]
    exact hfault
  have hitems : List.Forall₂ (IsDamagedItem Dex.decode) [vendorItem, plainItem]
      [vendorItem, spoiltItem] :=
    .cons (.intact rfl) (.cons hspoilt .nil)
  exact isDamagedEntry_of_items hitems (holds_vendorArchive (by simp))
    (holds_vendorArchive (by simp))

/-- The damage behind the container of the vendor does not matter. -/
theorem failures_only_clear_behind_match :
    (handingHost plainItem).IsDamaged Inspector.builtin.decoder (handingHost spoiltItem)
      "net.sample" ∧
    Waiting.inLine.IsPatient ∧
    (Inspector.builtin.classify (handingHost spoiltItem) .never "net.sample").outcome =
      .ok (.classMatch "classes.dex" "com.tencent.A") ∧
    (Inspector.builtin.classify (handingHost plainItem) .never "net.sample").outcome =
      .ok (.classMatch "classes.dex" "com.tencent.A") ∧
    (Inspector.builtin.ask (handingHost plainItem) .inLine "net.sample").value = some true := by
  have hclears := failures_only_clear Inspector.builtin _ _ _ isDamaged_handingHost
  have hspoilt : spoiltItem ∈ [plainItem, spoiltItem] := by simp
  have hverdict := outcome_classify_handingHost hspoilt
  have hpatient : Waiting.inLine.IsPatient := trivial
  refine ⟨isDamaged_handingHost, hpatient, hverdict, hclears.1 .never _ hverdict, ?_⟩
  apply hclears.2 .inLine .inLine hpatient
  rw [Inspector.ask_eq_some_true_iff hpatient, QueryReport.isFlagged?_eq_some_true_iff]
  exact ⟨_, hverdict, rfl⟩

end VendorScreen
