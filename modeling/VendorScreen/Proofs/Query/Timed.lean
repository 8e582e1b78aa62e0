import VendorScreen.Batch
import VendorScreen.Proofs.Query.Work

namespace VendorScreen

/-!
# Queries with a time limit

The caller starts a worker and waits for its message, and may lose patience at any moment, even when
the message is already there. He then sets the flag of the worker, which goes on until it looks at
it. The worker of an abandoned query sends nothing. A caller who cannot start a worker does its work
himself.
-/

/-- The package is flagged by a query that nobody stops. -/
def Inspector.Flags (i : Inspector) (host : Host) (id : String) : Prop :=
  ∃ verdict, (i.classify host .never id).outcome = .ok verdict ∧ verdict.isFlagged = true

theorem Inspector.isFlaggedApart_iff (i : Inspector) (host : Host) (id : String) :
    (i.classify host .never id).isFlaggedApart = true ↔ i.Flags host id := by
  simp only [QueryReport.isFlaggedApart, QueryReport.isFlagged?, Flags]
  cases (i.classify host .never id).outcome <;> simp

instance (i : Inspector) (host : Host) (id : String) : Decidable (i.Flags host id) :=
  decidable_of_iff _ (i.isFlaggedApart_iff host id)

inductive Caller where
  | idle
  | waiting
  | inLine
  | overdue
  | gaveUp
  | answered (flagged : Bool)
deriving DecidableEq

namespace Caller

def answer? : Caller → Option Bool
  | gaveUp => some false
  | answered flagged => some flagged
  | idle | waiting | inLine | overdue => none

/-- Whether the caller has begun with his query and has no answer yet. -/
def isBusy : Caller → Bool
  | waiting | inLine | overdue => true
  | idle | gaveUp | answered _ => false

def hasLostPatience : Caller → Bool
  | overdue | gaveUp => true
  | idle | waiting | inLine | answered _ => false

/-- Whether there is a worker that has something to do or to send. -/
def hasWorker : Caller → Bool
  | waiting | overdue | gaveUp => true
  | idle | inLine | answered _ => false

def stepsLeft : Caller → ℕ
  | idle => 3
  | waiting | inLine => 2
  | overdue => 1
  | gaveUp | answered _ => 0

end Caller

/-- What a caller and his worker have done, and the message on its way between them. -/
structure TimedQuery where
  caller : Caller
  isStopped : Bool
  task : Task
  calls : List Call
  sent : Option QueryReport

inductive Event where
  | spawn
  | refuse
  | work
  | send
  | receive
  | expire
  | hangUp
  | stop
  | finish
deriving DecidableEq

/-- Whether the caller begins with his query. -/
def Event.isBeginning : Event → Bool
  | spawn | refuse => true
  | work | send | receive | expire | hangUp | stop | finish => false

namespace TimedQuery

def start : TimedQuery := ⟨.idle, false, .names, [], none⟩

/-- What the caller, the worker and the clock can do next. -/
inductive Step (i : Inspector) (host : Host) (id : String) : TimedQuery → Event → TimedQuery → Prop
  | spawn {q} (hcaller : q.caller = .idle) : Step i host id q .spawn { q with caller := .waiting }
  | refuse {q} (hcaller : q.caller = .idle) : Step i host id q .refuse { q with caller := .inLine }
  | work {q} (hcaller : q.caller ≠ .idle) (htask : ∀ outcome, q.task ≠ .ended outcome) :
      Step i host id q .work
        { q with
          task := (q.task.step i host id q.isStopped).1
          calls := q.calls ++ (q.task.step i host id q.isStopped).2 }
  | send {q outcome} (hcaller : q.caller.hasWorker = true) (htask : q.task = .ended outcome)
      (houtcome : outcome ≠ .abandoned) (hsent : q.sent = none) :
      Step i host id q .send { q with sent := some ⟨outcome, q.calls⟩ }
  | receive {q r} (hcaller : q.caller = .waiting) (hsent : q.sent = some r) :
      Step i host id q .receive { q with caller := .answered r.isFlaggedApart }
  | expire {q} (hcaller : q.caller = .waiting) :
      Step i host id q .expire { q with caller := .overdue }
  | hangUp {q} (hcaller : q.caller = .waiting) (htask : q.task = .ended .abandoned) :
      Step i host id q .hangUp { q with caller := .overdue }
  | stop {q} (hcaller : q.caller = .overdue) :
      Step i host id q .stop { q with caller := .gaveUp, isStopped := true }
  | finish {q outcome flagged} (hcaller : q.caller = .inLine) (htask : q.task = .ended outcome)
      (hflagged : QueryReport.isFlagged? ⟨outcome, q.calls⟩ = some flagged) :
      Step i host id q .finish { q with caller := .answered flagged }

variable {i : Inspector} {host : Host} {id : String} {q q' : TimedQuery} {e : Event}

/-- What holds of a query that is `expired` if the clock has run out on its caller. Until the flag
is set, the worker is on its way to the report of a query that nobody stops. -/
structure Consistent (i : Inspector) (host : Host) (id : String) (expired : Prop)
    (q : TimedQuery) : Prop where
  stopped : q.isStopped = true → q.caller.hasLostPatience = true
  work : q.isStopped = false →
    (q.task.report i host id .never).preceded q.calls = i.classify host .never id
  sent : q.isStopped = false → ∀ r, q.sent = some r → r = i.classify host .never id
  answered : ∀ flagged, q.caller = .answered flagged →
    flagged = (i.classify host .never id).isFlaggedApart
  patient : q.caller.hasLostPatience = false → ¬ expired
  impatient : q.caller.hasLostPatience = true →
    expired ∨ (i.classify host .never id).outcome = .abandoned

theorem consistent_start (i : Inspector) (host : Host) (id : String) :
    start.Consistent i host id False where
  stopped := fun h => by simp [start] at h
  work := fun _ => rfl
  sent := fun _ r h => by simp [start] at h
  answered := fun flagged h => by simp [start] at h
  patient := fun _ => not_false
  impatient := fun h => by simp [start, Caller.hasLostPatience] at h

namespace Consistent

variable {expired : Prop}

theorem not_isStopped (h : q.Consistent i host id expired)
    (hcaller : q.caller.hasLostPatience = false) : q.isStopped = false := by
  cases hstopped : q.isStopped with
  | false => rfl
  | true =>
      have hlost := h.stopped hstopped
      simp [hcaller] at hlost

/-- The report of a worker that has ended without being stopped. -/
theorem report_eq (h : q.Consistent i host id expired) {outcome : Outcome QueryError Verdict}
    (hstopped : q.isStopped = false) (htask : q.task = .ended outcome) :
    (⟨outcome, q.calls⟩ : QueryReport) = i.classify host .never id := by
  have hwork := h.work hstopped
  rw [htask] at hwork
  simpa [Task.report, QueryReport.preceded] using hwork

theorem goOn (h : q.Consistent i host id expired) {c : Caller}
    (hbefore : q.caller.hasLostPatience = false) (hafter : c.hasLostPatience = false)
    (hanswered : ∀ flagged, c = .answered flagged →
      flagged = (i.classify host .never id).isFlaggedApart) :
    Consistent i host id expired { q with caller := c } where
  stopped := fun hstopped => by simp [h.not_isStopped hbefore] at hstopped
  work := h.work
  sent := h.sent
  answered := hanswered
  patient := fun _ => h.patient hbefore
  impatient := fun hlost => by simp [hafter] at hlost

theorem losePatience (h : q.Consistent i host id expired) {expired' : Prop}
    (hreason : expired' ∨ (i.classify host .never id).outcome = .abandoned) :
    Consistent i host id expired' { q with caller := .overdue } where
  stopped := fun _ => rfl
  work := h.work
  sent := h.sent
  answered := fun flagged heq => by simp at heq
  patient := fun hlost => by simp [Caller.hasLostPatience] at hlost
  impatient := fun _ => hreason

theorem step (h : q.Consistent i host id expired) (hstep : Step i host id q e q') :
    q'.Consistent i host id (expired ∨ e = .expire) := by
  cases hstep with
  | expire hcaller => exact h.losePatience (.inl (.inr rfl))
  | spawn hcaller | refuse hcaller =>
      rw [or_iff_left (by simp)]
      exact h.goOn (by rw [hcaller]; rfl) rfl (fun flagged heq => by simp at heq)
  | work hcaller htask =>
      rw [or_iff_left (by simp)]
      refine { h with work := ?_ }
      intro hstopped
      have hleft : q.task.report i host id .never =
          ((q.task.step i host id q.isStopped).1.report i host id .never).preceded
            (q.task.step i host id q.isStopped).2 :=
        Task.report_step i host id q.task fun moment _ => hstopped.symm
      rw [← h.work hstopped, hleft, QueryReport.preceded_preceded]
  | send hcaller htask houtcome hsent =>
      rw [or_iff_left (by simp)]
      refine { h with sent := ?_ }
      intro hstopped r hr
      rw [← h.report_eq hstopped htask]
      exact (Option.some.inj hr).symm
  | receive hcaller hsent =>
      rw [or_iff_left (by simp)]
      have hlost : q.caller.hasLostPatience = false := by rw [hcaller]; rfl
      refine h.goOn hlost rfl ?_
      rintro flagged ⟨rfl⟩
      rw [h.sent (h.not_isStopped hlost) _ hsent]
  | hangUp hcaller htask =>
      rw [or_iff_left (by simp)]
      have hlost : q.caller.hasLostPatience = false := by rw [hcaller]; rfl
      refine h.losePatience (.inr ?_)
      rw [← h.report_eq (h.not_isStopped hlost) htask]
  | stop hcaller =>
      rw [or_iff_left (by simp)]
      have hlost : q.caller.hasLostPatience = true := by rw [hcaller]; rfl
      exact {
        stopped := fun _ => rfl
        work := fun hstopped => by simp at hstopped
        sent := fun hstopped => by simp at hstopped
        answered := fun flagged heq => by simp at heq
        patient := fun hpatient => by simp [Caller.hasLostPatience] at hpatient
        impatient := fun _ => h.impatient hlost }
  | finish hcaller htask hflagged =>
      rw [or_iff_left (by simp)]
      have hlost : q.caller.hasLostPatience = false := by rw [hcaller]; rfl
      refine h.goOn hlost rfl ?_
      rintro flagged ⟨rfl⟩
      rw [QueryReport.isFlaggedApart, ← h.report_eq (h.not_isStopped hlost) htask, hflagged]
      rfl

/-- An answer depends on nothing but the clock of its caller and what is known about its package. -/
theorem answer_eq_true_iff (h : q.Consistent i host id expired) {flagged : Bool}
    (hanswer : q.caller.answer? = some flagged) :
    flagged = true ↔ ¬ expired ∧ i.Flags host id := by
  cases hcaller : q.caller with
  | idle | waiting | inLine | overdue => simp [hcaller, Caller.answer?] at hanswer
  | gaveUp =>
      rw [hcaller] at hanswer
      obtain rfl : false = flagged := Option.some.inj hanswer
      refine iff_of_false Bool.false_ne_true ?_
      rintro ⟨hpatient, verdict, houtcome, -⟩
      have hreason := h.impatient (by rw [hcaller]; rfl)
      rw [houtcome] at hreason
      exact hreason.elim hpatient (fun habandoned => by cases habandoned)
  | answered b =>
      rw [hcaller] at hanswer
      obtain rfl : b = flagged := Option.some.inj hanswer
      rw [h.answered b hcaller, i.isFlaggedApart_iff]
      exact (and_iff_right (h.patient (by rw [hcaller]; rfl))).symm

/-- A busy caller and his worker are never stuck, and need no clock to go on. -/
theorem exists_step (h : q.Consistent i host id expired) (hbusy : q.caller.isBusy = true)
    (hreturns : (i.classify host .never id).outcome ≠ .abandoned) :
    ∃ e q', Step i host id q e q' ∧ e ≠ .expire ∧ e.isBeginning = false := by
  by_cases hended : ∃ outcome, q.task = .ended outcome
  · obtain ⟨outcome, htask⟩ := hended
    cases hcaller : q.caller with
    | idle | gaveUp | answered flagged => simp [hcaller, Caller.isBusy] at hbusy
    | overdue => exact ⟨_, _, .stop hcaller, by simp, rfl⟩
    | waiting =>
        have hworker : q.caller.hasWorker = true := by rw [hcaller]; rfl
        by_cases houtcome : outcome = .abandoned
        · exact ⟨_, _, .hangUp hcaller (houtcome ▸ htask), by simp, rfl⟩
        · cases hsent : q.sent with
          | none => exact ⟨_, _, .send hworker htask houtcome hsent, by simp, rfl⟩
          | some r => exact ⟨_, _, .receive hcaller hsent, by simp, rfl⟩
    | inLine =>
        have hstopped : q.isStopped = false := h.not_isStopped (by rw [hcaller]; rfl)
        rw [← h.report_eq hstopped htask] at hreturns
        cases outcome with
        | ok verdict => exact ⟨_, _, .finish hcaller htask rfl, by simp, rfl⟩
        | error fault => exact ⟨_, _, .finish hcaller htask rfl, by simp, rfl⟩
        | abandoned => exact absurd rfl hreturns
  · have htask : ∀ outcome, q.task ≠ .ended outcome := fun outcome heq => hended ⟨outcome, heq⟩
    have hcaller : q.caller ≠ .idle := by
      intro heq
      simp [heq, Caller.isBusy] at hbusy
    exact ⟨_, _, .work hcaller htask, by simp, rfl⟩

end Consistent

/-- A bound on the steps that are left to a caller and his worker. -/
def stepsLeft (host : Host) (id : String) (q : TimedQuery) : ℕ :=
  q.task.stepsLeft host id + q.caller.stepsLeft + if q.sent.isNone then 1 else 0

theorem Step.stepsLeft_lt (h : Step i host id q e q') :
    q'.stepsLeft host id < q.stepsLeft host id := by
  unfold stepsLeft
  cases h with
  | spawn hcaller | refuse hcaller | receive hcaller hsent | expire hcaller | hangUp hcaller htask
  | stop hcaller | finish hcaller htask hflagged => simp [hcaller, Caller.stepsLeft]
  | work hcaller htask =>
      have hless := q.task.stepsLeft_step_lt i host id q.isStopped htask
      dsimp only
      omega
  | send hcaller htask houtcome hsent => simp [hsent]

end TimedQuery

end VendorScreen
