import VendorScreen.Batch
import VendorScreen.Proofs.Dex.Names
import VendorScreen.Proofs.Zip.Entries

namespace VendorScreen

/-!
# The earliest decisive stage

A query ends with what the first conclusive stage found, and in an archive that is the entry with
the smallest index that settles anything. `Decided` says so without following the walk: each of its
cases names one stage and excludes the stages before it.
-/

@[simp] theorem StopFlag.never_apply (moment : Moment) : StopFlag.never moment = false := rfl

namespace Verdict

theorem exists_isFlagged_iff (p : Verdict → Prop) :
    (∃ verdict, p verdict ∧ verdict.isFlagged = true) ↔
      p .identifierMatch ∨ (∃ className, p (.componentMatch className)) ∨
      (∃ entry size, p (.oversizedClassContainer entry size)) ∨
      ∃ entry className, p (.classMatch entry className) := by
  constructor
  · rintro ⟨verdict, h, hflagged⟩
    cases verdict with
    | identifierMatch => exact .inl h
    | componentMatch className => exact .inr (.inl ⟨className, h⟩)
    | oversizedClassContainer entry size => exact .inr (.inr (.inl ⟨entry, size, h⟩))
    | classMatch entry className => exact .inr (.inr (.inr ⟨entry, className, h⟩))
    | skipped | neutralLibrary | clean => simp [isFlagged] at hflagged
  · rintro (h | ⟨className, h⟩ | ⟨entry, size, h⟩ | ⟨entry, className, h⟩) <;> exact ⟨_, h, rfl⟩

theorem exists_not_isFlagged_iff (p : Verdict → Prop) :
    (∃ verdict, p verdict ∧ verdict.isFlagged = false) ↔
      p .skipped ∨ (∃ entry, p (.neutralLibrary entry)) ∨ p .clean := by
  constructor
  · rintro ⟨verdict, h, hplain⟩
    cases verdict with
    | skipped => exact .inl h
    | neutralLibrary entry => exact .inr (.inl ⟨entry, h⟩)
    | clean => exact .inr (.inr h)
    | identifierMatch | componentMatch | oversizedClassContainer | classMatch =>
        simp [isFlagged] at hplain
  · rintro (h | ⟨entry, h⟩ | h) <;> exact ⟨_, h, rfl⟩

end Verdict

namespace QueryReport

theorem isFlagged?_eq_some_true_iff (r : QueryReport) :
    r.isFlagged? = some true ↔ ∃ verdict, r.outcome = .ok verdict ∧ verdict.isFlagged = true := by
  unfold isFlagged?
  cases r.outcome <;> simp

end QueryReport

namespace Inspector

/-- What the entry with the given index settles about its archive, if no entry before it did. -/
inductive Settles (i : Inspector) (bytes : ByteArray) (index : ℕ) (entry : Zip.Entry) :
    Outcome QueryError Verdict → Prop
  | abandoned (hopen : entry.open bytes = .abandoned) : Settles i bytes index entry .abandoned
  | unreadable {fault : Zip.Fault} (hopen : entry.open bytes = .unreadable fault) :
      Settles i bytes index entry (.error (.archive (.unreadableEntry index fault)))
  | oversized {e : Zip.OpenEntry} (hopen : entry.open bytes = .opened e)
      (hname : isClassContainer entry.name = true) (hsize : i.sizeLimit < entry.size) :
      Settles i bytes index entry (.ok (.oversizedClassContainer entry.name entry.size))
  | undecodable {e : Zip.OpenEntry} {fault : Dex.Fault} (hopen : entry.open bytes = .opened e)
      (hname : isClassContainer entry.name = true) (hsize : entry.size ≤ i.sizeLimit)
      (hdecode : i.decoder e.source entry.size = .error fault) :
      Settles i bytes index entry (.error (.decode fault))
  | classMatch {e : Zip.OpenEntry} {names : List String} {k : ℕ} {className : String}
      (hopen : entry.open bytes = .opened e)
      (hname : isClassContainer entry.name = true) (hsize : entry.size ≤ i.sizeLimit)
      (hdecode : i.decoder e.source entry.size = .ok names)
      (hfirst : IsEarliest (fun name => i.watchlist.isFlagged name = true) names k className) :
      Settles i bytes index entry (.ok (.classMatch entry.name className))

/-- The entry settles something. Its index is only part of what an error says. -/
def IsDecisive (i : Inspector) (bytes : ByteArray) (entry : Zip.Entry) : Prop :=
  ∃ index outcome, i.Settles bytes index entry outcome

inductive Passes (i : Inspector) (bytes : ByteArray) (entry : Zip.Entry) : Prop
  | other {e : Zip.OpenEntry} (hopen : entry.open bytes = .opened e)
      (hname : isClassContainer entry.name = false)
  | unmatched {e : Zip.OpenEntry} {names : List String} (hopen : entry.open bytes = .opened e)
      (hname : isClassContainer entry.name = true) (hsize : entry.size ≤ i.sizeLimit)
      (hdecode : i.decoder e.source entry.size = .ok names)
      (hnone : ∀ name ∈ names, ¬ i.watchlist.isFlagged name = true)

def NameDecidesNothing (i : Inspector) (id : String) : Prop :=
  i.watchlist.isSkipped id = false ∧ i.watchlist.isFlagged id = false

/-- Nothing the query looks at before the archive decides. -/
def ReachesArchive (i : Inspector) (host : Host) (id : String) : Prop :=
  i.NameDecidesNothing id ∧ ∃ components, host.components id = .ok components ∧
    ∀ component ∈ components, ¬ i.watchlist.isFlagged component.className = true

/-- The host hands over an archive that opens and holds no entry with the marker. -/
structure ReachesEntries (i : Inspector) (host : Host) (id : String) (archive : Zip.Archive) :
    Prop where
  before : i.ReachesArchive host id
  handed : host.archive id = .ok archive.bytes
  isOpened : Zip.Archive.open archive.bytes = .ok archive
  unmarked : ∀ entry ∈ archive.entries,
    ¬ Zip.IsFoundBy archive.bytes neutralLibraryMarker entry

/-- How a query ends that is never stopped. -/
inductive Decided (i : Inspector) (host : Host) (id : String) : Outcome QueryError Verdict → Prop
  | skipped (h : i.watchlist.isSkipped id = true) : Decided i host id (.ok .skipped)
  | identifier (hskip : i.watchlist.isSkipped id = false) (h : i.watchlist.isFlagged id = true) :
      Decided i host id (.ok .identifierMatch)
  | componentsFault {fault : HostFault} (hname : i.NameDecidesNothing id)
      (h : host.components id = .error fault) : Decided i host id (.error (.host fault))
  | component {components : List Component} {k : ℕ} {component : Component}
      (hname : i.NameDecidesNothing id) (hlist : host.components id = .ok components)
      (h : IsEarliest (fun c => i.watchlist.isFlagged c.className = true) components k component) :
      Decided i host id (.ok (.componentMatch component.className))
  | archiveFault {fault : HostFault} (hbefore : i.ReachesArchive host id)
      (h : host.archive id = .error fault) : Decided i host id (.error (.host fault))
  | unopened {bytes : ByteArray} {fault : Zip.Fault} (hbefore : i.ReachesArchive host id)
      (hbytes : host.archive id = .ok bytes) (h : Zip.Archive.open bytes = .error fault) :
      Decided i host id (.error (.archive (.unopened fault)))
  | neutralLibrary {archive : Zip.Archive} {k : ℕ} {entry : Zip.Entry}
      (hbefore : i.ReachesArchive host id) (hbytes : host.archive id = .ok archive.bytes)
      (hopen : Zip.Archive.open archive.bytes = .ok archive)
      (h : IsEarliest (Zip.IsFoundBy archive.bytes neutralLibraryMarker) archive.entries k entry) :
      Decided i host id (.ok (.neutralLibrary entry.name))
  | entry {archive : Zip.Archive} {k : ℕ} {entry : Zip.Entry}
      {outcome : Outcome QueryError Verdict} (hbefore : i.ReachesEntries host id archive)
      (hfirst : IsEarliest (i.IsDecisive archive.bytes) archive.entries k entry)
      (h : i.Settles archive.bytes k entry outcome) : Decided i host id outcome
  | clean {archive : Zip.Archive} (hbefore : i.ReachesEntries host id archive)
      (h : ∀ entry ∈ archive.entries, ¬ i.IsDecisive archive.bytes entry) :
      Decided i host id (.ok .clean)

section walk

variable {i : Inspector} {flag : StopFlag} {bytes : ByteArray} {index decodings : ℕ}
  {entry : Zip.Entry} {rest entries : List Zip.Entry} {outcome : Outcome QueryError Verdict}

theorem settles_or_passes (i : Inspector) (bytes : ByteArray) (index : ℕ) (entry : Zip.Entry) :
    (∃ outcome, i.Settles bytes index entry outcome) ∨ i.Passes bytes entry := by
  cases hopen : entry.open bytes with
  | abandoned => exact .inl ⟨_, .abandoned hopen⟩
  | unreadable fault => exact .inl ⟨_, .unreadable hopen⟩
  | opened e =>
      cases hname : isClassContainer entry.name with
      | false => exact .inr (.other hopen hname)
      | true =>
          rcases Nat.lt_or_ge i.sizeLimit entry.size with hsize | hsize
          · exact .inl ⟨_, .oversized hopen hname hsize⟩
          · cases hdecode : i.decoder e.source entry.size with
            | error fault => exact .inl ⟨_, .undecodable hopen hname hsize hdecode⟩
            | ok names =>
                rcases IsEarliest.exists_or_forall_not
                  (fun name => i.watchlist.isFlagged name = true) names with ⟨k, c, hfirst⟩ | hnone
                · exact .inl ⟨_, .classMatch hopen hname hsize hdecode hfirst⟩
                · exact .inr (.unmatched hopen hname hsize hdecode hnone)

theorem judgeContents_of_error {e : Zip.OpenEntry} {fault : Dex.Fault}
    (hopen : entry.open bytes = .opened e)
    (hdecode : i.decoder e.source entry.size = .error fault) :
    i.judgeContents e = .decided (.error (.decode fault)) := by
  simp only [judgeContents, Zip.Entry.entry_of_open hopen, hdecode]

theorem judgeContents_of_match {e : Zip.OpenEntry} {names : List String} {k : ℕ}
    {className : String} (hopen : entry.open bytes = .opened e)
    (hdecode : i.decoder e.source entry.size = .ok names)
    (hfirst : IsEarliest (fun name => i.watchlist.isFlagged name = true) names k className) :
    i.judgeContents e = .decided (.ok (.classMatch entry.name className)) := by
  have hfind : names.find? i.watchlist.isFlagged = some className :=
    (find?_eq_some_iff_isEarliest ..).mpr ⟨k, hfirst⟩
  simp only [judgeContents, Zip.Entry.entry_of_open hopen, hdecode, hfind]

theorem judgeContents_of_none {e : Zip.OpenEntry} {names : List String}
    (hopen : entry.open bytes = .opened e)
    (hdecode : i.decoder e.source entry.size = .ok names)
    (hnone : ∀ name ∈ names, ¬ i.watchlist.isFlagged name = true) :
    i.judgeContents e = .passed := by
  have hfind : names.find? i.watchlist.isFlagged = none := List.find?_eq_none.mpr hnone
  simp only [judgeContents, Zip.Entry.entry_of_open hopen, hdecode, hfind]

/-- A walk ends at an entry that settles something, whatever comes after it. -/
theorem inspectFrom_of_settles (hflag : flag (.beforeEntry index decodings) = false)
    (h : i.Settles bytes index entry outcome) :
    ∃ calls, ∀ rest,
      i.inspectFrom flag bytes index decodings (entry :: rest) = ⟨outcome, calls⟩ := by
  cases h with
  | abandoned hopen => exact ⟨[], fun rest => by simp [inspectFrom, hopen]⟩
  | unreadable hopen => exact ⟨[], fun rest => by simp [inspectFrom, hopen, hflag]⟩
  | oversized hopen hname hsize =>
      exact ⟨[], fun rest => by simp [inspectFrom, hopen, hflag, hname, hsize]⟩
  | undecodable hopen hname hsize hdecode =>
      refine ⟨[.decode entry.name entry.size], fun rest => ?_⟩
      simp [inspectFrom, hopen, hflag, hname, Nat.not_lt.mpr hsize,
        judgeContents_of_error hopen hdecode]
  | classMatch hopen hname hsize hdecode hfirst =>
      refine ⟨[.decode entry.name entry.size], fun rest => ?_⟩
      simp [inspectFrom, hopen, hflag, hname, Nat.not_lt.mpr hsize,
        judgeContents_of_match hopen hdecode hfirst]

/-- What a walk has the decoder called for when it passes an entry. -/
def decodeCalls (entry : Zip.Entry) : List Call :=
  if isClassContainer entry.name then [.decode entry.name entry.size] else []

/-- A walk goes on behind an entry that is passed, and only the calls tell that it was there. -/
theorem inspectFrom_eq_of_passes (hflag : flag (.beforeEntry index decodings) = false)
    (h : i.Passes bytes entry) (rest : List Zip.Entry) :
    i.inspectFrom flag bytes index decodings (entry :: rest) =
      (i.inspectFrom flag bytes (index + 1) (decodings + (decodeCalls entry).length) rest).preceded
        (decodeCalls entry) := by
  cases h with
  | other hopen hname =>
      simp [inspectFrom, hopen, hflag, hname, decodeCalls, QueryReport.preceded]
  | unmatched hopen hname hsize hdecode hnone =>
      simp [inspectFrom, hopen, hflag, hname, Nat.not_lt.mpr hsize, decodeCalls,
        judgeContents_of_none hopen hdecode hnone]

theorem inspectFrom_of_passes (hflag : flag (.beforeEntry index decodings) = false)
    (h : i.Passes bytes entry) :
    ∃ calls decodings', ∀ rest, i.inspectFrom flag bytes index decodings (entry :: rest) =
      (i.inspectFrom flag bytes (index + 1) decodings' rest).preceded calls :=
  ⟨_, _, inspectFrom_eq_of_passes hflag h⟩

/-- A walk that finds its flag set in front of an entry has no verdict. -/
theorem outcome_inspectFrom_of_flag (hflag : flag (.beforeEntry index decodings) = true)
    (verdict : Verdict) :
    (i.inspectFrom flag bytes index decodings (entry :: rest)).outcome ≠ .ok verdict := by
  rw [inspectFrom]
  cases entry.open bytes with
  | abandoned => simp
  | unreadable fault => simp [hflag]
  | opened e => simp [hflag]

theorem Passes.not_isDecisive (h : i.Passes bytes entry) : ¬ i.IsDecisive bytes entry := by
  rintro ⟨index, outcome, hs⟩
  cases h with
  | other hopen hname => cases hs <;> simp_all
  | unmatched hopen hname hsize hdecode hnone =>
      cases hs with
      | abandoned hopen' => simp [hopen] at hopen'
      | unreadable hopen' => simp [hopen] at hopen'
      | oversized hopen' hname' hsize' => exact absurd hsize' (Nat.not_lt.mpr hsize)
      | undecodable hopen' hname' hsize' hdecode' =>
          rw [hopen, Zip.Opening.opened.injEq] at hopen'
          simp [← hopen', hdecode] at hdecode'
      | classMatch hopen' hname' hsize' hdecode' hfirst =>
          rw [hopen, Zip.Opening.opened.injEq] at hopen'
          rw [← hopen', hdecode, Except.ok.injEq] at hdecode'
          exact hnone _ (hdecode' ▸ hfirst.mem) hfirst.2.1

theorem passes_of_not_isDecisive (h : ¬ i.IsDecisive bytes entry) : i.Passes bytes entry := by
  rcases i.settles_or_passes bytes 0 entry with ⟨outcome, hs⟩ | hp
  · exact absurd ⟨0, outcome, hs⟩ h
  · exact hp

theorem settles_of_isDecisive (index : ℕ) (h : i.IsDecisive bytes entry) :
    ∃ outcome, i.Settles bytes index entry outcome := by
  rcases i.settles_or_passes bytes index entry with hs | hp
  · exact hs
  · exact absurd h hp.not_isDecisive

/-- The walk ends with what the earliest decisive entry settles. -/
theorem outcome_inspectFrom_of_isEarliest {k : ℕ}
    (hfirst : IsEarliest (i.IsDecisive bytes) entries k entry)
    (h : i.Settles bytes (index + k) entry outcome) :
    (i.inspectFrom .never bytes index decodings entries).outcome = outcome := by
  induction entries generalizing index decodings k with
  | nil => exact (IsEarliest.nil_iff.mp hfirst).elim
  | cons first rest ih =>
      cases k with
      | zero =>
          obtain ⟨rfl, -⟩ := IsEarliest.zero_iff.mp hfirst
          obtain ⟨calls, hreport⟩ := inspectFrom_of_settles
            (StopFlag.never_apply (.beforeEntry index decodings)) h
          rw [hreport]
      | succ k =>
          obtain ⟨hpass, hlater⟩ := IsEarliest.succ_iff.mp hfirst
          obtain ⟨calls, decodings', hwalk⟩ := inspectFrom_of_passes
            (StopFlag.never_apply (.beforeEntry index decodings)) (passes_of_not_isDecisive hpass)
          rw [hwalk, QueryReport.outcome_preceded]
          exact ih hlater (by simpa [Nat.add_assoc, Nat.add_comm 1] using h)

theorem outcome_inspectFrom_of_forall_not
    (h : ∀ entry ∈ entries, ¬ i.IsDecisive bytes entry) :
    (i.inspectFrom .never bytes index decodings entries).outcome = .ok .clean := by
  induction entries generalizing index decodings with
  | nil => rfl
  | cons first rest ih =>
      have hpass := passes_of_not_isDecisive (h first List.mem_cons_self)
      obtain ⟨calls, decodings', hwalk⟩ := inspectFrom_of_passes
        (StopFlag.never_apply (.beforeEntry index decodings)) hpass
      rw [hwalk, QueryReport.outcome_preceded]
      exact ih fun entry hentry => h entry (List.mem_cons_of_mem first hentry)

end walk

section stages

variable {i : Inspector} {host : Host} {id : String}

theorem outcome_classify_of_reachesArchive (h : i.ReachesArchive host id) :
    (i.classify host .never id).outcome = (i.classifyArchive host .never id).outcome := by
  obtain ⟨hname, components, hlist, hnone⟩ := h
  have hfind := List.find?_eq_none.mpr hnone
  simp [classify, hname.1, hname.2, hlist, hfind]

theorem outcome_classifyArchive_of_ok {bytes : ByteArray} (h : host.archive id = .ok bytes) :
    (i.classifyArchive host .never id).outcome = (i.inspect .never bytes).outcome := by
  simp [classifyArchive, h]

theorem outcome_classify_of_reachesEntries {archive : Zip.Archive}
    (h : i.ReachesEntries host id archive) :
    (i.classify host .never id).outcome =
      (i.inspectFrom .never archive.bytes 0 0 archive.entries).outcome := by
  have hmark := (archive.findName?_eq_none_iff neutralLibraryMarker).mpr h.unmarked
  rw [outcome_classify_of_reachesArchive h.before, outcome_classifyArchive_of_ok h.handed, inspect,
    h.isOpened]
  simp only [hmark]

/-- The relation holds of nothing but the outcome. -/
theorem outcome_of_decided {outcome : Outcome QueryError Verdict}
    (h : i.Decided host id outcome) : (i.classify host .never id).outcome = outcome := by
  cases h with
  | skipped h => simp [classify, h]
  | identifier hskip h => simp [classify, hskip, h]
  | componentsFault hname h => simp [classify, hname.1, hname.2, h]
  | component hname hlist h =>
      have hfind := (find?_eq_some_iff_isEarliest
        (fun c : Component => i.watchlist.isFlagged c.className) ..).mpr ⟨_, h⟩
      simp [classify, hname.1, hname.2, hlist, hfind]
  | archiveFault hbefore h =>
      rw [outcome_classify_of_reachesArchive hbefore]
      simp [classifyArchive, h]
  | unopened hbefore hbytes h =>
      rw [outcome_classify_of_reachesArchive hbefore, outcome_classifyArchive_of_ok hbytes, inspect,
        h]
  | @neutralLibrary archive k entry hbefore hbytes hopen h =>
      have hmark := (archive.findName?_eq_some_iff neutralLibraryMarker entry.name).mpr
        ⟨k, entry, h, rfl⟩
      rw [outcome_classify_of_reachesArchive hbefore, outcome_classifyArchive_of_ok hbytes, inspect,
        hopen]
      simp only [hmark]
  | entry hbefore hfirst h =>
      rw [outcome_classify_of_reachesEntries hbefore]
      exact outcome_inspectFrom_of_isEarliest hfirst (by simpa using h)
  | clean hbefore h =>
      rw [outcome_classify_of_reachesEntries hbefore]
      exact outcome_inspectFrom_of_forall_not h

theorem exists_decided_of_reachesEntries {archive : Zip.Archive}
    (h : i.ReachesEntries host id archive) : ∃ outcome, i.Decided host id outcome := by
  rcases IsEarliest.exists_or_forall_not (i.IsDecisive archive.bytes) archive.entries with
    ⟨k, entry, hfirst⟩ | hnone
  · obtain ⟨outcome, hs⟩ := settles_of_isDecisive k hfirst.2.1
    exact ⟨outcome, .entry h hfirst hs⟩
  · exact ⟨_, .clean h hnone⟩

theorem exists_decided_of_reachesArchive (h : i.ReachesArchive host id) :
    ∃ outcome, i.Decided host id outcome := by
  cases hbytes : host.archive id with
  | error fault => exact ⟨_, .archiveFault h hbytes⟩
  | ok bytes =>
      cases hopen : Zip.Archive.open bytes with
      | error fault => exact ⟨_, .unopened h hbytes hopen⟩
      | ok archive =>
          obtain rfl := Zip.Archive.bytes_of_open hopen
          rcases IsEarliest.exists_or_forall_not
            (Zip.IsFoundBy archive.bytes neutralLibraryMarker) archive.entries with
            ⟨k, entry, hmark⟩ | hmark
          · exact ⟨_, .neutralLibrary h hbytes hopen hmark⟩
          · exact exists_decided_of_reachesEntries ⟨h, hbytes, hopen, hmark⟩

/-- Some stage always decides. -/
theorem exists_decided (i : Inspector) (host : Host) (id : String) :
    ∃ outcome, i.Decided host id outcome := by
  cases hskip : i.watchlist.isSkipped id with
  | true => exact ⟨_, .skipped hskip⟩
  | false =>
      cases hflagged : i.watchlist.isFlagged id with
      | true => exact ⟨_, .identifier hskip hflagged⟩
      | false =>
          cases hlist : host.components id with
          | error fault => exact ⟨_, .componentsFault ⟨hskip, hflagged⟩ hlist⟩
          | ok components =>
              rcases IsEarliest.exists_or_forall_not
                (fun c : Component => i.watchlist.isFlagged c.className = true) components with
                ⟨k, component, h⟩ | h
              · exact ⟨_, .component ⟨hskip, hflagged⟩ hlist h⟩
              · exact exists_decided_of_reachesArchive ⟨⟨hskip, hflagged⟩, components, hlist, h⟩

theorem decided_iff (i : Inspector) (host : Host) (id : String)
    (outcome : Outcome QueryError Verdict) :
    i.Decided host id outcome ↔ (i.classify host .never id).outcome = outcome := by
  constructor
  · exact outcome_of_decided
  · rintro rfl
    obtain ⟨outcome, h⟩ := exists_decided i host id
    exact outcome_of_decided h ▸ h

/-- No entry of the archive of the package is a trap. -/
def HoldsNoTrap (host : Host) (id : String) : Prop :=
  ∀ archive : Zip.Archive, host.archive id = .ok archive.bytes →
    Zip.Archive.open archive.bytes = .ok archive →
      ∀ entry ∈ archive.entries, ¬ Zip.IsTrap archive.bytes entry

/-- A query is abandoned exactly when the earliest decisive entry of its archive is a trap. -/
theorem decided_abandoned_iff : i.Decided host id .abandoned ↔
    ∃ archive k entry, i.ReachesEntries host id archive ∧
      IsEarliest (i.IsDecisive archive.bytes) archive.entries k entry ∧
        Zip.IsTrap archive.bytes entry := by
  constructor
  · intro h
    cases h with
    | entry hbefore hfirst h =>
        cases h with
        | abandoned hopen =>
            have htrap := (Zip.Entry.open_eq_abandoned_iff ..).mp hopen
            exact ⟨_, _, _, hbefore, hfirst, htrap⟩
  · rintro ⟨archive, k, entry, hbefore, hfirst, htrap⟩
    exact .entry hbefore hfirst (.abandoned ((Zip.Entry.open_eq_abandoned_iff ..).mpr htrap))

theorem outcome_ne_abandoned_of_holdsNoTrap (h : HoldsNoTrap host id) :
    (i.classify host .never id).outcome ≠ .abandoned := by
  intro habandoned
  obtain ⟨archive, k, entry, hbefore, hfirst, htrap⟩ :=
    decided_abandoned_iff.mp ((decided_iff ..).mpr habandoned)
  exact h archive hbefore.handed hbefore.isOpened entry hfirst.mem htrap

theorem ask_inLine_eq_some_iff (answer : Bool) :
    (i.ask host .inLine id).value = some answer ↔
      (∃ verdict, i.Decided host id (.ok verdict) ∧ verdict.isFlagged = answer) ∨
        (∃ cause, i.Decided host id (.error cause)) ∧ answer = false := by
  simp only [ask, Waiting.answer, QueryReport.isFlagged?, decided_iff]
  cases (i.classify host .never id).outcome <;> simp [eq_comm]

/-- A query that is never stopped ends with what the earliest decisive stage found. It is abandoned
only on a trap, and its plain answer is yes for four kinds of verdict, no for the others and for
errors. Class names are compared in the order of their definitions. -/
theorem classify_ends_at_earliest_stage (i : Inspector) (host : Host) (id : String) :
    (∀ outcome, (i.classify host .never id).outcome = outcome ↔ i.Decided host id outcome) ∧
    (HoldsNoTrap host id →
      ∃ result : Except QueryError Verdict,
        (i.classify host .never id).outcome = .ofExcept result) ∧
    ((i.ask host .inLine id).value = some true ↔
      i.Decided host id (.ok .identifierMatch) ∨
      (∃ className, i.Decided host id (.ok (.componentMatch className))) ∨
      (∃ entry size, i.Decided host id (.ok (.oversizedClassContainer entry size))) ∨
      ∃ entry className, i.Decided host id (.ok (.classMatch entry className))) ∧
    ((i.ask host .inLine id).value = some false ↔
      i.Decided host id (.ok .skipped) ∨
      (∃ entry, i.Decided host id (.ok (.neutralLibrary entry))) ∨
      i.Decided host id (.ok .clean) ∨
      ∃ cause, i.Decided host id (.error cause)) ∧
    (∀ source size names, Dex.decode source size = .ok names →
      ∃ bytes c, source.drain = .ok bytes ∧ Dex.Container.open bytes = .ok c ∧
        names.length = c.classDefs.size ∧
          ∀ k (hk : k < names.length), c.name k = .ok names[k]) := by
  refine ⟨?_, ?_, ?_, ?_, ?_⟩
  · intro outcome
    exact (decided_iff i host id outcome).symm
  · intro h
    have hne := outcome_ne_abandoned_of_holdsNoTrap (i := i) h
    cases houtcome : (i.classify host .never id).outcome with
    | ok verdict => exact ⟨.ok verdict, rfl⟩
    | error cause => exact ⟨.error cause, rfl⟩
    | abandoned => exact absurd houtcome hne
  · rw [ask_inLine_eq_some_iff]
    simp [Verdict.exists_isFlagged_iff]
  · rw [ask_inLine_eq_some_iff]
    simp [Verdict.exists_not_isFlagged_iff, or_assoc]
  · intro source size names h
    obtain ⟨bytes, hdrain, hnames⟩ := (Dex.decode_eq_ok_iff source size names).mp h
    obtain ⟨c, hopen, hlength, hname⟩ := (Dex.classNames_eq_ok_iff bytes names).mp hnames
    exact ⟨bytes, c, hdrain, hopen, hlength, hname⟩

end stages

end Inspector

end VendorScreen
