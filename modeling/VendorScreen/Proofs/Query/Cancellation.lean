import VendorScreen.Proofs.Query.Decision
import VendorScreen.Proofs.Query.Work

namespace VendorScreen

/-!
# Queries that are told to stop

A stop flag may be set at any time, but a query looks at it only before the archive and before each
entry. What it finds there costs the query its result and never changes it, and between two looks
there is room for one archive or one decoding.
-/

namespace QueryReport

/-- The report is the full one, or breaks off cancelled after some of its calls. -/
def CutsShort (r full : QueryReport) : Prop :=
  r = full ∨ r.outcome = .error .cancelled ∧ r.calls <+: full.calls

variable {r full : QueryReport}

theorem cutsShort_refl (r : QueryReport) : r.CutsShort r := .inl rfl

theorem cutsShort_cancelled (full : QueryReport) : CutsShort ⟨.error .cancelled, []⟩ full :=
  .inr ⟨rfl, List.nil_prefix⟩

theorem CutsShort.preceded (h : r.CutsShort full) (calls : List Call) :
    (r.preceded calls).CutsShort (full.preceded calls) := by
  rcases h with rfl | ⟨houtcome, hcalls⟩
  · exact cutsShort_refl _
  · refine .inr ⟨houtcome, ?_⟩
    rw [calls_preceded, calls_preceded]
    exact (List.prefix_append_right_inj calls).mpr hcalls

theorem CutsShort.outcome (h : r.CutsShort full) :
    r.outcome = full.outcome ∨ r.outcome = .error .cancelled := by
  rcases h with rfl | ⟨houtcome, -⟩
  · exact .inl rfl
  · exact .inr houtcome

end QueryReport

namespace Inspector

open QueryReport

variable (i : Inspector) (flag : StopFlag)

theorem judgeEntry_cutsShort {bytes : ByteArray} {rest : List Zip.Entry}
    (hrest : ∀ index decodings, (i.inspectFrom flag bytes index decodings rest).CutsShort
      (i.inspectFrom .never bytes index decodings rest))
    (index decodings : ℕ) (entry : Zip.Entry) :
    (i.judgeEntry flag bytes index decodings entry rest).CutsShort
      (i.judgeEntry .never bytes index decodings entry rest) := by
  simp only [judgeEntry]
  cases entry.open bytes with
  | abandoned | unreadable fault => exact cutsShort_refl _
  | opened e =>
      dsimp only
      split
      · split
        · exact cutsShort_refl _
        · cases i.judgeContents e with
          | decided outcome => exact cutsShort_refl _
          | passed => exact (hrest (index + 1) (decodings + 1)).preceded _
      · exact hrest (index + 1) decodings

theorem inspectFrom_cutsShort (bytes : ByteArray) (index decodings : ℕ)
    (entries : List Zip.Entry) :
    (i.inspectFrom flag bytes index decodings entries).CutsShort
      (i.inspectFrom .never bytes index decodings entries) := by
  induction entries generalizing index decodings with
  | nil => exact cutsShort_refl _
  | cons entry rest ih =>
      by_cases hopen : entry.open bytes = .abandoned
      · simp only [inspectFrom, hopen]
        exact cutsShort_refl _
      · rw [i.inspectFrom_cons flag _ _ _ _ _ hopen, i.inspectFrom_cons .never _ _ _ _ _ hopen,
          StopFlag.never_apply]
        cases flag (.beforeEntry index decodings) with
        | true => exact cutsShort_cancelled _
        | false => exact i.judgeEntry_cutsShort flag ih index decodings entry

theorem inspect_cutsShort (bytes : ByteArray) :
    (i.inspect flag bytes).CutsShort (i.inspect .never bytes) := by
  simp only [inspect]
  cases Zip.Archive.open bytes with
  | error fault => exact cutsShort_refl _
  | ok archive =>
      dsimp only
      cases archive.findName? neutralLibraryMarker with
      | some entry => exact cutsShort_refl _
      | none => exact i.inspectFrom_cutsShort flag bytes 0 0 archive.entries

theorem classifyArchive_cutsShort (host : Host) (id : String) :
    (i.classifyArchive host flag id).CutsShort (i.classifyArchive host .never id) := by
  rw [classifyArchive_eq, classifyArchive_eq, StopFlag.never_apply]
  cases flag .beforeArchive with
  | true => exact cutsShort_cancelled _
  | false =>
      simp only [afterFlag]
      cases host.archive id with
      | error fault => exact cutsShort_refl _
      | ok bytes => exact (i.inspect_cutsShort flag bytes).preceded _

theorem classify_cutsShort (host : Host) (id : String) :
    (i.classify host flag id).CutsShort (i.classify host .never id) := by
  rw [classify_eq, classify_eq]
  split
  · exact cutsShort_refl _
  split
  · exact cutsShort_refl _
  simp only [afterNames]
  cases host.components id with
  | error fault => exact cutsShort_refl _
  | ok components =>
      dsimp only
      cases components.find? fun component => i.watchlist.isFlagged component.className with
      | some component => exact cutsShort_refl _
      | none => exact (i.classifyArchive_cutsShort flag host id).preceded _

/-- A walk that nobody stops does not end cancelled. -/
theorem outcome_inspectFrom_never_ne_cancelled (bytes : ByteArray) (entries : List Zip.Entry) :
    (i.inspectFrom .never bytes 0 0 entries).outcome ≠ .error .cancelled := by
  rcases IsEarliest.exists_or_forall_not (i.IsDecisive bytes) entries with
    ⟨k, entry, hfirst⟩ | hnone
  · obtain ⟨outcome, hsettles⟩ := settles_of_isDecisive (0 + k) hfirst.2.1
    rw [outcome_inspectFrom_of_isEarliest hfirst hsettles]
    cases hsettles <;> simp
  · rw [outcome_inspectFrom_of_forall_not hnone]
    simp

/-- The flag is set beforehand, so the first entry that can be opened or not ends the walk. -/
theorem inspectFrom_always_cons {bytes : ByteArray} {entry : Zip.Entry}
    (htrap : ¬ Zip.IsTrap bytes entry) (rest : List Zip.Entry) :
    i.inspectFrom .always bytes 0 0 (entry :: rest) = ⟨.error .cancelled, []⟩ := by
  have hopen : entry.open bytes ≠ .abandoned := mt (entry.open_eq_abandoned_iff bytes).mp htrap
  rw [i.inspectFrom_cons .always _ _ _ _ _ hopen]
  rfl

theorem inspectFrom_cons_of_isTrap {bytes : ByteArray} {entry : Zip.Entry}
    (htrap : Zip.IsTrap bytes entry) (rest : List Zip.Entry) :
    i.inspectFrom flag bytes 0 0 (entry :: rest) = ⟨.abandoned, []⟩ := by
  have hopen := (entry.open_eq_abandoned_iff bytes).mpr htrap
  simp only [inspectFrom, hopen]

/-- The archive opens, no marker is found in it, and its first entry is met by the walk. -/
def HasEntryToJudge (bytes : ByteArray) : Prop :=
  ∃ archive entry rest, Zip.Archive.open bytes = .ok archive ∧
    archive.findName? neutralLibraryMarker = none ∧ archive.entries = entry :: rest ∧
      ¬ Zip.IsTrap bytes entry

theorem inspect_always_of_hasEntryToJudge {bytes : ByteArray} (h : HasEntryToJudge bytes) :
    i.inspect .always bytes = ⟨.error .cancelled, []⟩ := by
  obtain ⟨archive, entry, rest, hopen, hmark, hentries, htrap⟩ := h
  simp only [inspect, hopen, hmark, hentries]
  exact i.inspectFrom_always_cons htrap rest

theorem outcome_inspect_never_ne_cancelled (bytes : ByteArray) :
    (i.inspect .never bytes).outcome ≠ .error .cancelled := by
  simp only [inspect]
  cases Zip.Archive.open bytes with
  | error fault => simp
  | ok archive =>
      dsimp only
      cases archive.findName? neutralLibraryMarker with
      | some entry => simp
      | none => exact i.outcome_inspectFrom_never_ne_cancelled bytes archive.entries

theorem inspect_always_of_not_hasEntryToJudge {bytes : ByteArray} (h : ¬ HasEntryToJudge bytes) :
    i.inspect .always bytes = i.inspect .never bytes ∧ (i.inspect .always bytes).calls = [] := by
  simp only [inspect]
  cases hopen : Zip.Archive.open bytes with
  | error fault => exact ⟨rfl, rfl⟩
  | ok archive =>
      dsimp only
      cases hmark : archive.findName? neutralLibraryMarker with
      | some entry => exact ⟨rfl, rfl⟩
      | none =>
          cases hentries : archive.entries with
          | nil => exact ⟨rfl, rfl⟩
          | cons entry rest =>
              have htrap : Zip.IsTrap bytes entry := by
                by_contra htrap
                exact h ⟨archive, entry, rest, hopen, hmark, hentries, htrap⟩
              simp only [i.inspectFrom_cons_of_isTrap _ htrap, and_self]

end Inspector

/-- The place of a moment in the order in which a query comes to them. -/
def Moment.rank : Moment → ℕ
  | beforeArchive => 0
  | beforeEntry index _ => index + 1

/-- The flag is set when the query comes to the moment with this place. -/
def StopFlag.fromRank (rank : ℕ) : StopFlag := fun moment => rank ≤ moment.rank

/-- The host hands over an archive, or the decoder begins with an entry. -/
def Call.isCostly : Call → Bool
  | archive _ | decode _ _ => true
  | inventory | components _ | icon _ | defaultIcon => false

namespace Task

variable (i : Inspector) (host : Host) (id : String)

/-- The task after so many steps that would find the flag as given, and the calls made in them. A
flag that is set during a call is set after the step that makes the call. -/
def steps (isStopped : Bool) : ℕ → Task → Task × List Call
  | 0, t => (t, [])
  | count + 1, t =>
      let next := t.step i host id isStopped
      let last := steps isStopped count next.1
      (last.1, next.2 ++ last.2)

theorem steps_ended (isStopped : Bool) (count : ℕ) (outcome : Outcome QueryError Verdict) :
    steps i host id isStopped count (.ended outcome) = (.ended outcome, []) := by
  induction count with
  | zero => rfl
  | succ count ih => simp only [steps, step, ih, List.append_nil]

theorem exists_steps_ended (isStopped : Bool) (t : Task) :
    ∃ count outcome, (steps i host id isStopped count t).1 = .ended outcome := by
  induction hleft : t.stepsLeft host id using Nat.strong_induction_on generalizing t with
  | _ left ih =>
      by_cases hended : ∃ outcome, t = .ended outcome
      · obtain ⟨outcome, rfl⟩ := hended
        exact ⟨0, outcome, rfl⟩
      · have hless := t.stepsLeft_step_lt i host id isStopped fun outcome heq =>
          hended ⟨outcome, heq⟩
        obtain ⟨count, outcome, hlast⟩ := ih _ (hleft ▸ hless) _ rfl
        exact ⟨count + 1, outcome, hlast⟩

/-- The place of the moment at which the query looks at its flag next. -/
def nextLook : Task → ℕ
  | names | components | flagBeforeArchive | ended _ => 0
  | archive | opening _ => 1
  | entering _ index _ _ | flagBeforeEntry _ index _ _ _ => index + 1
  | judging _ index _ _ _ => index + 2

theorem rank_eq_nextLook {t : Task} {moment : Moment} (h : t.moment? = some moment) :
    moment.rank = t.nextLook := by
  cases t <;> simp only [moment?, Option.some.injEq, reduceCtorEq] at h <;> subst h <;> rfl

/-- The moments of a query come in order, and none of them comes twice. -/
theorem nextLook_step (isStopped : Bool) (t : Task) :
    (∃ outcome, (t.step i host id isStopped).1 = .ended outcome) ∨
      t.nextLook ≤ (t.step i host id isStopped).1.nextLook ∧
        ∀ moment, t.moment? = some moment → isStopped = false ∧
          t.nextLook < (t.step i host id isStopped).1.nextLook := by
  cases t with
  | names =>
      simp only [step]
      split
      · exact .inl ⟨_, rfl⟩
      · split
        · exact .inl ⟨_, rfl⟩
        · exact .inr ⟨Nat.le_refl _, by simp [moment?]⟩
  | components =>
      simp only [step]
      cases host.components id with
      | error fault => exact .inl ⟨_, rfl⟩
      | ok list =>
          dsimp only
          cases list.find? fun component => i.watchlist.isFlagged component.className with
          | some component => exact .inl ⟨_, rfl⟩
          | none => exact .inr ⟨Nat.le_refl _, by simp [moment?]⟩
  | flagBeforeArchive =>
      cases isStopped with
      | true => exact .inl ⟨_, rfl⟩
      | false => exact .inr ⟨Nat.zero_le _, fun _ _ => ⟨rfl, Nat.one_pos⟩⟩
  | archive =>
      simp only [step]
      cases host.archive id with
      | error fault => exact .inl ⟨_, rfl⟩
      | ok bytes => exact .inr ⟨Nat.le_refl _, by simp [moment?]⟩
  | opening bytes =>
      simp only [step]
      cases Zip.Archive.open bytes with
      | error fault => exact .inl ⟨_, rfl⟩
      | ok directory =>
          dsimp only
          cases directory.findName? neutralLibraryMarker with
          | some entry => exact .inl ⟨_, rfl⟩
          | none => exact .inr ⟨Nat.le_refl _, by simp [moment?]⟩
  | entering bytes index decodings entries =>
      cases entries with
      | nil => exact .inl ⟨_, rfl⟩
      | cons entry rest =>
          simp only [step]
          cases entry.open bytes with
          | abandoned => exact .inl ⟨_, rfl⟩
          | unreadable fault | opened e => exact .inr ⟨Nat.le_refl _, by simp [moment?]⟩
  | flagBeforeEntry bytes index decodings entry rest =>
      cases isStopped with
      | true => exact .inl ⟨_, rfl⟩
      | false => exact .inr ⟨Nat.le_succ _, fun _ _ => ⟨rfl, Nat.lt_succ_self _⟩⟩
  | judging bytes index decodings entry rest =>
      simp only [step]
      cases entry.open bytes with
      | abandoned | unreadable fault => exact .inl ⟨_, rfl⟩
      | opened e =>
          dsimp only
          split
          · split
            · exact .inl ⟨_, rfl⟩
            · cases i.judgeContents e with
              | decided outcome => exact .inl ⟨_, rfl⟩
              | passed => exact .inr ⟨Nat.le_refl _, by simp [moment?]⟩
          · exact .inr ⟨Nat.le_refl _, by simp [moment?]⟩
  | ended outcome => exact .inl ⟨_, rfl⟩

/-- What is left of a query once its flag is set, all of whose looks are still to come. -/
theorem report_steps_of_stopped {rank : ℕ} (count : ℕ) {t : Task}
    (h : (∃ outcome, t = .ended outcome) ∨ rank ≤ t.nextLook) :
    t.report i host id (.fromRank rank) =
      ((steps i host id true count t).1.report i host id (.fromRank rank)).preceded
        (steps i host id true count t).2 := by
  induction count generalizing t with
  | zero => rfl
  | succ count ih =>
      rcases h with ⟨outcome, rfl⟩ | hrank
      · rw [steps_ended]
        rfl
      · have hlook : ∀ moment, t.moment? = some moment → StopFlag.fromRank rank moment = true := by
          intro moment hmoment
          rw [StopFlag.fromRank, rank_eq_nextLook hmoment]
          exact decide_eq_true hrank
        have hnext : (∃ outcome, (t.step i host id true).1 = .ended outcome) ∨
            rank ≤ (t.step i host id true).1.nextLook := by
          rcases nextLook_step i host id true t with hended | ⟨hle, -⟩
          · exact .inl hended
          · exact .inr (hrank.trans hle)
        rw [t.report_step i host id hlook, ih hnext, QueryReport.preceded_preceded]
        rfl

/-- Some flag is unset at all the looks of the first steps and set at all that come after them. -/
theorem exists_report_steps (count : ℕ) (t : Task) :
    ∃ rank, t.nextLook ≤ rank ∧
      ((∃ outcome, (steps i host id false count t).1 = .ended outcome) ∨
        rank ≤ (steps i host id false count t).1.nextLook) ∧
      t.report i host id (.fromRank rank) =
        ((steps i host id false count t).1.report i host id (.fromRank rank)).preceded
          (steps i host id false count t).2 := by
  induction count generalizing t with
  | zero => exact ⟨t.nextLook, Nat.le_refl _, .inr (Nat.le_refl _), rfl⟩
  | succ count ih =>
      -- The flag is unset at the look of the first step if its rank lies beyond that look.
      have hfirst (rank : ℕ) (hrank : ∀ moment, t.moment? = some moment → t.nextLook < rank) :
          t.report i host id (.fromRank rank) =
            ((t.step i host id false).1.report i host id (.fromRank rank)).preceded
              (t.step i host id false).2 := by
        refine t.report_step i host id fun moment hmoment => ?_
        rw [StopFlag.fromRank, rank_eq_nextLook hmoment]
        exact decide_eq_false (Nat.not_le.mpr (hrank moment hmoment))
      rcases nextLook_step i host id false t with ⟨outcome, hended⟩ | ⟨hle, hlook⟩
      · refine ⟨t.nextLook + 1, Nat.le_succ _, .inl ⟨outcome, ?_⟩, ?_⟩
        · simp only [steps, hended, steps_ended]
        · rw [hfirst _ fun _ _ => Nat.lt_succ_self _]
          simp only [steps, hended, steps_ended, List.append_nil]
      · obtain ⟨rank, hrank, hlater, hreport⟩ := ih (t.step i host id false).1
        refine ⟨rank, hle.trans hrank, hlater, ?_⟩
        rw [hfirst rank fun moment hmoment => (hlook moment hmoment).2.trans_le hrank, hreport,
          QueryReport.preceded_preceded]
        rfl

/-- The archives and decodings that a stopped query can still begin with. -/
def costlyLeft : Task → ℕ
  | archive | judging _ _ _ _ _ => 1
  | names | components | flagBeforeArchive | opening _ | entering _ _ _ _
  | flagBeforeEntry _ _ _ _ _ | ended _ => 0

theorem costlyLeft_le_one (t : Task) : t.costlyLeft ≤ 1 := by
  cases t <;> simp [costlyLeft]

theorem countP_step_add_costlyLeft_le (t : Task) :
    (t.step i host id true).2.countP Call.isCostly + (t.step i host id true).1.costlyLeft ≤
      t.costlyLeft := by
  cases t with
  | names =>
      simp only [step]
      split
      · exact Nat.le_refl _
      · split <;> exact Nat.le_refl _
  | components =>
      simp only [step]
      cases host.components id with
      | error fault => exact Nat.le_refl _
      | ok list =>
          dsimp only
          cases list.find? fun component => i.watchlist.isFlagged component.className <;>
            exact Nat.le_refl _
  | flagBeforeArchive | flagBeforeEntry bytes index decodings entry rest | ended outcome =>
      exact Nat.le_refl _
  | archive =>
      simp only [step]
      cases host.archive id <;> exact Nat.le_refl _
  | opening bytes =>
      simp only [step]
      cases Zip.Archive.open bytes with
      | error fault => exact Nat.le_refl _
      | ok directory =>
          dsimp only
          cases directory.findName? neutralLibraryMarker <;> exact Nat.le_refl _
  | entering bytes index decodings entries =>
      cases entries with
      | nil => exact Nat.le_refl _
      | cons entry rest =>
          simp only [step]
          cases entry.open bytes <;> exact Nat.le_refl _
  | judging bytes index decodings entry rest =>
      simp only [step]
      cases entry.open bytes with
      | abandoned | unreadable fault => exact Nat.zero_le _
      | opened e =>
          dsimp only
          split
          · split
            · exact Nat.zero_le _
            · cases i.judgeContents e <;> exact Nat.le_refl _
          · exact Nat.zero_le _

theorem countP_steps_le (count : ℕ) (t : Task) :
    (steps i host id true count t).2.countP Call.isCostly ≤ t.costlyLeft := by
  induction count generalizing t with
  | zero => exact Nat.zero_le _
  | succ count ih =>
      have hfirst := countP_step_add_costlyLeft_le i host id t
      have hlater := ih (t.step i host id true).1
      simp only [steps, List.countP_append]
      omega

/-- A query whose flag is set after some of its steps ends, and its report is that of a query that
finds the flag set from some moment on. -/
theorem exists_ended_after (early : ℕ) :
    ∃ late flag outcome,
      (steps i host id true late (steps i host id false early .names).1).1 = .ended outcome ∧
      i.classify host flag id = ⟨outcome, (steps i host id false early .names).2 ++
        (steps i host id true late (steps i host id false early .names).1).2⟩ := by
  obtain ⟨rank, -, hlooks, hearly⟩ := exists_report_steps i host id early .names
  obtain ⟨late, outcome, hended⟩ := exists_steps_ended i host id true
    (steps i host id false early .names).1
  refine ⟨late, .fromRank rank, outcome, hended, ?_⟩
  have hclassify : i.classify host (.fromRank rank) id =
      Task.names.report i host id (.fromRank rank) := rfl
  rw [hclassify, hearly, report_steps_of_stopped i host id late hlooks, hended,
    QueryReport.preceded_preceded]
  simp only [report, QueryReport.preceded, List.append_nil]

end Task

/-- Whatever a query finds of its stop flag, it ends as it would have ended or cancelled, after no
other calls. If the flag is set after any number of steps, at most one archive is handed over or one
entry decoded after that, and the query does end. A flag that is set beforehand keeps an archive
from being decoded at all, and makes a difference exactly where an entry would have been judged. -/
theorem cancellation_only_cuts_short (i : Inspector) (host : Host) (id : String) :
    (∀ flag, (i.classify host flag id).CutsShort (i.classify host .never id)) ∧
    (∀ early, let met := Task.names.steps i host id false early
      (∀ late, (met.1.steps i host id true late).2.countP Call.isCostly ≤ 1) ∧
      ∃ late flag outcome, (met.1.steps i host id true late).1 = .ended outcome ∧
        i.classify host flag id = ⟨outcome, met.2 ++ (met.1.steps i host id true late).2⟩ ∧
        (outcome = (i.classify host .never id).outcome ∨ outcome = .error .cancelled)) ∧
    (∀ bytes, (i.inspect .always bytes).calls = [] ∧
      ((i.inspect .always bytes).outcome ≠ (i.inspect .never bytes).outcome ↔
        Inspector.HasEntryToJudge bytes) ∧
      ((i.inspect .always bytes).outcome = .error .cancelled ↔
        Inspector.HasEntryToJudge bytes)) := by
  refine ⟨fun flag => i.classify_cutsShort flag host id, ?_, ?_⟩
  · intro early met
    have hcostly (late : ℕ) :=
      (Task.countP_steps_le i host id late met.1).trans met.1.costlyLeft_le_one
    refine ⟨hcostly, ?_⟩
    obtain ⟨late, flag, outcome, hended, hreport⟩ := Task.exists_ended_after i host id early
    refine ⟨late, flag, outcome, hended, hreport, ?_⟩
    have hcut := (i.classify_cutsShort flag host id).outcome
    rwa [hreport] at hcut
  · intro bytes
    have hnever := i.outcome_inspect_never_ne_cancelled bytes
    by_cases h : Inspector.HasEntryToJudge bytes
    · rw [i.inspect_always_of_hasEntryToJudge h]
      exact ⟨rfl, iff_of_true hnever.symm h, iff_of_true rfl h⟩
    · obtain ⟨hsame, hcalls⟩ := i.inspect_always_of_not_hasEntryToJudge h
      rw [hsame] at hcalls ⊢
      exact ⟨hcalls, iff_of_false (fun hne => hne rfl) h, iff_of_false hnever h⟩

end VendorScreen
