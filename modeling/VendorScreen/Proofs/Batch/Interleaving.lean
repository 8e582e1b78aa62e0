import VendorScreen.Proofs.Query.Abandonment
import VendorScreen.Proofs.Query.Timed

namespace VendorScreen

/-!
# Queries with time limits side by side

The queries of a batch take their steps in any order, and the clock may run out on any of them at
any moment. The queries share nothing, so that an answer is decided by the clock of its own query
and what is known about its own package; the batch then puts the answers together in the order of
its identifiers.
-/

namespace Inspector

variable {i : Inspector} {host host' : Host} {id : String}

theorem classify_congr {flag : StopFlag} (hcomponents : host.components id = host'.components id)
    (harchive : host.archive id = host'.archive id) :
    i.classify host flag id = i.classify host' flag id := by
  simp only [classify, classifyArchive, hcomponents, harchive]

theorem flags_iff_ask_inLine : i.Flags host id ↔ (i.ask host .inLine id).value = some true := by
  rw [← isFlaggedApart_iff, QueryReport.isFlaggedApart, ask, Waiting.answer]
  cases (i.classify host .never id).isFlagged? <;> simp

theorem ask_apart_ne_none (i : Inspector) (host : Host)
    (isOverdue : String → QueryReport → Bool) (id : String) :
    (i.ask host (.apart isOverdue) id).value ≠ none := by
  rw [ask, Waiting.answer]
  split <;> simp

theorem ask_apart_eq_some_true_iff {isOverdue : String → QueryReport → Bool} :
    (i.ask host (.apart isOverdue) id).value = some true ↔
      isOverdue id (i.classify host .never id) ≠ true ∧ i.Flags host id := by
  rw [← isFlaggedApart_iff, ask, Waiting.answer]
  split_ifs with hoverdue
  · simp [hoverdue]
  · simp [hoverdue]

end Inspector

/-- Nobody gives up a query. -/
def Waiting.IsPatient : Waiting → Prop
  | .inLine => True
  | .apart isOverdue => ∀ id r, isOverdue id r = false

section waiting

variable {i : Inspector} {host : Host} {w : Waiting} {id : String}

/-- A query that is given up is not answered with yes. -/
theorem Inspector.isFlagged?_of_ask (h : (i.ask host w id).value = some true) :
    (i.classify host .never id).isFlagged? = some true := by
  cases w with
  | inLine => exact h
  | apart isOverdue => exact flags_iff_ask_inLine.mp (ask_apart_eq_some_true_iff.mp h).2

theorem Inspector.ask_eq_some_true_iff (h : w.IsPatient) :
    (i.ask host w id).value = some true ↔ (i.classify host .never id).isFlagged? = some true := by
  refine ⟨isFlagged?_of_ask, ?_⟩
  intro hflagged
  cases w with
  | inLine => exact hflagged
  | apart isOverdue =>
      rw [ask_apart_eq_some_true_iff, h id, flags_iff_ask_inLine]
      exact ⟨Bool.false_ne_true, hflagged⟩

end waiting

/-- Identifiers that are asked about side by side, at most so many at a time. -/
structure TimedBatch where
  inspector : Inspector
  host : Host
  width : ℕ
  ids : List String

namespace TimedBatch

abbrev State (b : TimedBatch) := Fin b.ids.length → TimedQuery

abbrev Trace (b : TimedBatch) := List (Fin b.ids.length × Event)

/-- One more caller may begin with his query. -/
def HasRoom (b : TimedBatch) (s : b.State) : Prop :=
  (Finset.univ.filter fun p => (s p).caller.isBusy = true).card < max b.width 1

/-- The events of the trace lead to the given queries. -/
inductive Reaches (b : TimedBatch) : b.Trace → b.State → Prop
  | start : Reaches b [] fun _ => .start
  | step {trace s p e q} (hreach : Reaches b trace s)
      (hstep : TimedQuery.Step b.inspector b.host b.ids[p] (s p) e q)
      (hroom : e.isBeginning = true → b.HasRoom s) :
      Reaches b (trace ++ [(p, e)]) (Function.update s p q)

/-- The identifiers at the chosen positions. -/
def idsAt (b : TimedBatch) (isChosen : Fin b.ids.length → Bool) : List String :=
  ((List.finRange b.ids.length).filter isChosen).map b.ids.get

/-- The identifiers with the answer yes, once all have an answer. -/
def kept? (b : TimedBatch) (s : b.State) : Option (List String) :=
  if ∀ p, (s p).caller.answer?.isSome = true then
    some (b.idsAt fun p => (s p).caller.answer? = some true)
  else none

variable {b : TimedBatch} {trace : b.Trace} {s : b.State} {kept : List String}

theorem idsAt_eq_filter (b : TimedBatch) (isChosen : String → Bool) :
    (b.idsAt fun p => isChosen b.ids[p]) = b.ids.filter isChosen := by
  have hids : (List.finRange b.ids.length).map b.ids.get = b.ids := by simp
  conv_rhs => rw [← hids, List.filter_map]
  rfl

theorem idsAt_sublist {isChosen isChosen' : Fin b.ids.length → Bool}
    (h : ∀ p, isChosen p = true → isChosen' p = true) :
    (b.idsAt isChosen).Sublist (b.idsAt isChosen') :=
  (List.monotone_filter_right _ h).map _

theorem hasRoom_of_forall_not (h : ∀ p, ¬ (s p).caller.isBusy = true) : b.HasRoom s := by
  have hempty : (Finset.univ.filter fun p => (s p).caller.isBusy = true) = ∅ := by
    rw [Finset.filter_eq_empty_iff]
    exact fun p _ => h p
  rw [HasRoom, hempty, Finset.card_empty]
  exact lt_max_of_lt_right Nat.one_pos

theorem Reaches.consistent (h : b.Reaches trace s) (p : Fin b.ids.length) :
    (s p).Consistent b.inspector b.host b.ids[p] ((p, Event.expire) ∈ trace) := by
  induction h with
  | start =>
      have hstart := TimedQuery.consistent_start b.inspector b.host b.ids[p]
      simpa using hstart
  | @step trace s p' e q hreach hstep hroom ih =>
      by_cases hp : p = p'
      · subst hp
        have hafter := ih.step hstep
        simpa [eq_comm] using hafter
      · simpa [hp] using ih

/-- Every answer of a batch is decided by its own query. -/
theorem Reaches.answer_eq_true_iff (h : b.Reaches trace s) {p : Fin b.ids.length} {flagged : Bool}
    (hanswer : (s p).caller.answer? = some flagged) :
    flagged = true ↔ (p, Event.expire) ∉ trace ∧ b.inspector.Flags b.host b.ids[p] :=
  (h.consistent p).answer_eq_true_iff hanswer

theorem Reaches.kept_eq (h : b.Reaches trace s) (hkept : b.kept? s = some kept) :
    kept = b.idsAt fun p => (p, Event.expire) ∉ trace ∧ b.inspector.Flags b.host b.ids[p] := by
  unfold kept? at hkept
  split at hkept
  · rename_i hanswered
    rw [← Option.some.inj hkept]
    congr 1
    funext p
    obtain ⟨flagged, hanswer⟩ := Option.isSome_iff_exists.mp (hanswered p)
    rw [hanswer, decide_eq_decide, Option.some.injEq]
    exact h.answer_eq_true_iff hanswer
  · cases hkept

theorem Reaches.keepFlagged?_apart_eq (h : b.Reaches trace s) (hkept : b.kept? s = some kept)
    {isOverdue : String → QueryReport → Bool}
    (hclock : ∀ p, (p, Event.expire) ∈ trace ↔
      isOverdue b.ids[p] (b.inspector.classify b.host .never b.ids[p]) = true) :
    b.inspector.keepFlagged? b.host (.apart isOverdue) b.ids = some kept := by
  cases hbatch : b.inspector.keepFlagged? b.host (.apart isOverdue) b.ids with
  | none =>
      obtain ⟨id, -, hsilent⟩ := (Inspector.keepFlagged?_eq_none_iff ..).mp hbatch
      exact absurd hsilent (b.inspector.ask_apart_ne_none b.host isOverdue id)
  | some kept' =>
      rw [Inspector.keepFlagged?_eq_some hbatch, h.kept_eq hkept, ← idsAt_eq_filter]
      congr 2
      funext p
      rw [decide_eq_decide, Inspector.ask_apart_eq_some_true_iff, hclock p]

theorem Reaches.kept_eq_filter (h : b.Reaches trace s) (hkept : b.kept? s = some kept)
    (hclock : ∀ p, (p, Event.expire) ∉ trace) :
    kept = b.ids.filter fun id => (b.inspector.ask b.host .inLine id).value = some true := by
  rw [h.kept_eq hkept, ← idsAt_eq_filter]
  congr 1
  funext p
  rw [decide_eq_decide, ← Inspector.flags_iff_ask_inLine]
  exact and_iff_right (hclock p)

theorem Reaches.kept_sublist {trace' : b.Trace} {s' : b.State} {kept' : List String}
    (h : b.Reaches trace s) (hkept : b.kept? s = some kept)
    (h' : b.Reaches trace' s') (hkept' : b.kept? s' = some kept')
    (hclock : ∀ p, (p, Event.expire) ∈ trace → (p, Event.expire) ∈ trace') :
    kept'.Sublist kept := by
  rw [h.kept_eq hkept, h'.kept_eq hkept']
  apply idsAt_sublist
  intro p hp
  obtain ⟨hpatient, hflags⟩ := of_decide_eq_true hp
  exact decide_eq_true ⟨fun hexpired => hpatient (hclock p hexpired), hflags⟩

theorem Reaches.answer_eq {b' : TimedBatch} {trace' : b'.Trace} {s' : b'.State}
    {p : Fin b.ids.length} {p' : Fin b'.ids.length} {flagged flagged' : Bool}
    (h : b.Reaches trace s) (h' : b'.Reaches trace' s')
    (hflags : b.inspector.Flags b.host b.ids[p] ↔ b'.inspector.Flags b'.host b'.ids[p'])
    (hclock : (p, Event.expire) ∈ trace ↔ (p', Event.expire) ∈ trace')
    (hanswer : (s p).caller.answer? = some flagged)
    (hanswer' : (s' p').caller.answer? = some flagged') : flagged = flagged' := by
  rw [Bool.eq_iff_iff, h.answer_eq_true_iff hanswer, h'.answer_eq_true_iff hanswer', hflags, hclock]

theorem Reaches.length_add_sum_stepsLeft_le (h : b.Reaches trace s) :
    trace.length + ∑ p, (s p).stepsLeft b.host b.ids[p] ≤
      ∑ p : Fin b.ids.length, TimedQuery.start.stepsLeft b.host b.ids[p] := by
  induction h with
  | start => simp
  | @step trace s p e q hreach hstep hroom ih =>
      have hless : ∑ p', (Function.update s p q p').stepsLeft b.host b.ids[p'] <
          ∑ p', (s p').stepsLeft b.host b.ids[p'] := by
        apply Finset.sum_lt_sum
        · intro p' _
          by_cases hp : p' = p
          · subst hp
            simpa using hstep.stepsLeft_lt.le
          · simp [hp]
        · exact ⟨p, Finset.mem_univ p, by simpa using hstep.stepsLeft_lt⟩
      rw [List.length_append, List.length_singleton]
      omega

/-- A batch without abandoned queries is never stuck before it has its answer. -/
theorem Reaches.exists_step (h : b.Reaches trace s) (hnone : b.kept? s = none)
    (hreturns : ∀ id ∈ b.ids, (b.inspector.classify b.host .never id).outcome ≠ .abandoned) :
    ∃ p e s', b.Reaches (trace ++ [(p, e)]) s' ∧ e ≠ .expire := by
  by_cases hbusy : ∃ p, (s p).caller.isBusy = true
  · obtain ⟨p, hp⟩ := hbusy
    obtain ⟨e, q, hstep, hclock, hbegins⟩ :=
      (h.consistent p).exists_step hp (hreturns _ (List.getElem_mem _))
    exact ⟨p, e, _, .step h hstep (fun hbegin => by simp [hbegins] at hbegin), hclock⟩
  · -- Nobody is busy, so there is room for one of the callers who have not begun.
    have hroom : b.HasRoom s := hasRoom_of_forall_not fun p hp => hbusy ⟨p, hp⟩
    have hwaits : ∃ p, (s p).caller = .idle := by
      unfold kept? at hnone
      split at hnone
      · cases hnone
      · rename_i hanswered
        obtain ⟨p, hp⟩ := not_forall.mp hanswered
        refine ⟨p, ?_⟩
        cases hcaller : (s p).caller with
        | idle => rfl
        | waiting | inLine | overdue => exact absurd ⟨p, by rw [hcaller]; rfl⟩ hbusy
        | gaveUp | answered flagged => exact absurd (by rw [hcaller]; rfl) hp
    obtain ⟨p, hp⟩ := hwaits
    exact ⟨p, .spawn, _, .step h (.spawn hp) (fun _ => hroom), by simp⟩

/-- A batch gets its answer from any moment on, even if the clock never runs out again. -/
theorem Reaches.exists_kept (h : b.Reaches trace s)
    (hreturns : ∀ id ∈ b.ids, (b.inspector.classify b.host .never id).outcome ≠ .abandoned) :
    ∃ trace' s' kept, b.Reaches (trace ++ trace') s' ∧ b.kept? s' = some kept ∧
      ∀ p, (p, Event.expire) ∉ trace' := by
  -- The induction is on how much longer than this a trace can get.
  induction hleft : ∑ p : Fin b.ids.length, TimedQuery.start.stepsLeft b.host b.ids[p] -
      trace.length using Nat.strong_induction_on generalizing trace s with
  | _ left ih =>
      cases hkept : b.kept? s with
      | some kept => exact ⟨[], s, kept, by simpa using h, hkept, by simp⟩
      | none =>
          obtain ⟨p, e, s₁, h₁, hclock⟩ := h.exists_step hkept hreturns
          have hlength := h₁.length_add_sum_stepsLeft_le
          rw [List.length_append, List.length_singleton] at hlength
          obtain ⟨trace', s', kept, h', hkept', hclock'⟩ := ih _ (by
            rw [← hleft, List.length_append, List.length_singleton]
            omega) h₁ rfl
          refine ⟨(p, e) :: trace', s', kept, by simpa using h', hkept', ?_⟩
          intro p' hmem
          rcases List.mem_cons.mp hmem with heq | hmem
          · exact hclock (congrArg Prod.snd heq).symm
          · exact hclock' p' hmem

theorem exists_gaveUp (b : TimedBatch) (hasty : List (Fin b.ids.length)) (hnodup : hasty.Nodup) :
    ∃ trace s, b.Reaches trace s ∧ (∀ p, (p, Event.expire) ∈ trace ↔ p ∈ hasty) ∧
      ∀ p, (s p).caller = if p ∈ hasty then .gaveUp else .idle := by
  induction hasty with
  | nil => exact ⟨[], _, .start, by simp, by simp [TimedQuery.start]⟩
  | cons p hasty ih =>
      obtain ⟨hnew, hnodup⟩ := List.nodup_cons.mp hnodup
      obtain ⟨trace, s, h, hclock, hcallers⟩ := ih hnodup
      have hroom : b.HasRoom s := by
        apply hasRoom_of_forall_not
        intro p'
        rw [hcallers p']
        split <;> simp [Caller.isBusy]
      have hidle : (s p).caller = .idle := by rw [hcallers p, if_neg hnew]
      have hspawned := h.step (.spawn hidle) (fun _ => hroom)
      have hexpired := hspawned.step (p := p) (.expire (by simp)) (by simp [Event.isBeginning])
      have hstopped := hexpired.step (p := p) (.stop (by simp)) (by simp [Event.isBeginning])
      refine ⟨_, _, hstopped, ?_, ?_⟩
      · intro p'
        simp [hclock p', or_comm]
      · intro p'
        by_cases hp : p' = p
        · subst hp
          simp
        · simp [hp, hcallers p']

end TimedBatch

/-- Whatever the order of the steps and whoever loses patience when, a batch keeps the positions
whose own clock has not run out and whose package is flagged when nobody stops the query. A clock
only removes its own position, and other packages make no difference. A batch without abandoned
queries gets its answer, and the clock may run out on any of its positions. -/
theorem TimedBatch.keeps_patient_flagged (b : TimedBatch) :
    (∀ trace s kept, b.Reaches trace s → b.kept? s = some kept →
      (kept = b.idsAt fun p =>
        (p, Event.expire) ∉ trace ∧ b.inspector.Flags b.host b.ids[p]) ∧
      (∀ isOverdue : String → QueryReport → Bool,
        (∀ p, (p, Event.expire) ∈ trace ↔
          isOverdue b.ids[p] (b.inspector.classify b.host .never b.ids[p]) = true) →
        b.inspector.keepFlagged? b.host (.apart isOverdue) b.ids = some kept) ∧
      ((∀ p, (p, Event.expire) ∉ trace) →
        kept = b.ids.filter fun id => (b.inspector.ask b.host .inLine id).value = some true) ∧
      ∀ trace' s' kept', b.Reaches trace' s' → b.kept? s' = some kept' →
        (∀ p, (p, Event.expire) ∈ trace → (p, Event.expire) ∈ trace') → kept'.Sublist kept) ∧
    (∀ (host' : Host) (width' : ℕ) (ids' : List String),
      let b' : TimedBatch := ⟨b.inspector, host', width', ids'⟩
      ∀ trace s trace' s' p p' flagged flagged', b.Reaches trace s → b'.Reaches trace' s' →
        b.ids[p] = ids'[p'] → b.host.components b.ids[p] = host'.components b.ids[p] →
        b.host.archive b.ids[p] = host'.archive b.ids[p] →
        ((p, Event.expire) ∈ trace ↔ (p', Event.expire) ∈ trace') →
        (s p).caller.answer? = some flagged → (s' p').caller.answer? = some flagged' →
        flagged = flagged') ∧
    (∃ bound, ∀ trace s, b.Reaches trace s → trace.length ≤ bound) ∧
    ((∀ id ∈ b.ids, (b.inspector.classify b.host .never id).outcome ≠ .abandoned) →
      (∀ trace s, b.Reaches trace s →
        ∃ trace' s' kept, b.Reaches (trace ++ trace') s' ∧ b.kept? s' = some kept ∧
          ∀ p, (p, Event.expire) ∉ trace') ∧
      ∀ hasty : Finset (Fin b.ids.length), ∃ trace s kept, b.Reaches trace s ∧
        b.kept? s = some kept ∧ ∀ p, (p, Event.expire) ∈ trace ↔ p ∈ hasty) := by
  refine ⟨?_, ?_, ?_, ?_⟩
  · intro trace s kept h hkept
    refine ⟨h.kept_eq hkept, ?_, h.kept_eq_filter hkept, ?_⟩
    · intro isOverdue hclock
      exact h.keepFlagged?_apart_eq hkept hclock
    · intro trace' s' kept' h' hkept' hclock
      exact h.kept_sublist hkept h' hkept' hclock
  · intro host' width' ids' b' trace s trace' s' p p' flagged flagged' h h' hid hcomponents
      harchive hclock hanswer hanswer'
    refine h.answer_eq h' ?_ hclock hanswer hanswer'
    have hsame : b.inspector.classify b.host .never b.ids[p] =
        b.inspector.classify host' .never ids'[p'] := by
      rw [Inspector.classify_congr hcomponents harchive, hid]
    rw [← Inspector.isFlaggedApart_iff, ← Inspector.isFlaggedApart_iff, hsame]
  · refine ⟨∑ p : Fin b.ids.length, TimedQuery.start.stepsLeft b.host b.ids[p], ?_⟩
    intro trace s h
    exact (Nat.le_add_right ..).trans h.length_add_sum_stepsLeft_le
  · intro hreturns
    refine ⟨fun trace s h => h.exists_kept hreturns, ?_⟩
    intro hasty
    obtain ⟨trace, s, h, hclock, -⟩ := b.exists_gaveUp hasty.toList hasty.nodup_toList
    obtain ⟨trace', s', kept, h', hkept, hclock'⟩ := h.exists_kept hreturns
    refine ⟨trace ++ trace', s', kept, h', hkept, ?_⟩
    intro p
    rw [List.mem_append, or_iff_left (hclock' p), hclock p, Finset.mem_toList]

end VendorScreen
