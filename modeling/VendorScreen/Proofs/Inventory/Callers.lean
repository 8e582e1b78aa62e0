import VendorScreen.Proofs.Inventory.Replies
import VendorScreen.Registry
import VendorScreen.Session

namespace VendorScreen

/-!
# Callers who share the inventory

Several callers may want the packages at once. As long as no list is kept, one of them at a time
asks the host for it and the others wait. A fault is the answer of the caller who met it, and the
next one asks again. The host may change at any moment.
-/

/-- What a caller who wants the packages is doing. -/
inductive ListCaller where
  | idle
  | waiting
  /-- It is the turn of the caller to ask the host. -/
  | filling
  | heard (value : Except HostFault (List PackageRecord))
  | answered (value : Except HostFault (List PackageRecord))

namespace ListCaller

def value? : ListCaller → Option (Except HostFault (List PackageRecord))
  | heard value | answered value => some value
  | idle | waiting | filling => none

def answer? (form : ListForm) : ListCaller → Option Answer
  | answered value => some (.ofList form value)
  | idle | waiting | filling | heard _ => none

def hasFailed (c : ListCaller) : Bool :=
  match c.value? with
  | some (.error _) => true
  | some (.ok _) | none => false

def isBusy : ListCaller → Bool
  | waiting | filling | heard _ => true
  | idle | answered _ => false

def stepsLeft : ListCaller → ℕ
  | idle => 4
  | waiting => 3
  | filling => 2
  | heard _ => 1
  | answered _ => 0

theorem value?_of_answer? {c : ListCaller} {form : ListForm} {answer : Answer}
    (h : c.answer? form = some answer) :
    ∃ value, c.value? = some value ∧ answer = .ofList form value := by
  cases c with
  | answered value => exact ⟨value, rfl, (Option.some.inj h).symm⟩
  | idle | waiting | filling | heard => cases h

end ListCaller

inductive ListEvent where
  | call
  | read
  | enter
  | hear (host : Host)
  | answer

namespace ListEvent

def isHearing : ListEvent → Bool
  | hear _ => true
  | call | read | enter | answer => false

/-- The packages that the host gives. -/
def given? : ListEvent → Option (List InstalledPackage)
  | hear host => host.installed.toOption
  | call | read | enter | answer => none

theorem given?_of_not_isHearing {e : ListEvent} (h : e.isHearing = false) : e.given? = none := by
  cases e with
  | hear host => cases h
  | call | read | enter | answer => rfl

end ListEvent

/-- The inventory, the callers who share it, and the questions put to the host for them. -/
structure SharedInventory (ι : Type) where
  inventory : Inventory
  callers : ι → ListCaller
  calls : List Call

namespace SharedInventory

open Inventory (kept)

variable {ι : Type}

abbrev Trace (ι : Type) := List (ι × ListEvent)

/-- What the host gave when it first gave the packages. -/
def firstGiven (trace : Trace ι) : Option (List InstalledPackage) :=
  trace.findSome? fun move => move.2.given?

def start (hostIdentifier : Option String) : SharedInventory ι :=
  ⟨.empty hostIdentifier, fun _ => .idle, []⟩

@[simp] theorem callers_start (hostIdentifier : Option String) (p : ι) :
    (start hostIdentifier).callers p = .idle := rfl

variable {hostIdentifier : Option String} {trace later : Trace ι} {s s' : SharedInventory ι}
  {p q : ι} {e : ListEvent} {c : ListCaller} {host : Host} {fault : HostFault}

theorem firstGiven_append : firstGiven (trace ++ later) =
    (firstGiven trace).or (firstGiven later) :=
  List.findSome?_append

theorem firstGiven_concat : firstGiven (trace ++ [(p, e)]) = (firstGiven trace).or e.given? := by
  rw [firstGiven_append]
  cases h : e.given? <;> simp [firstGiven, h]

theorem exists_of_firstGiven {installed : List InstalledPackage}
    (h : firstGiven trace = some installed) :
    ∃ p host, (p, ListEvent.hear host) ∈ trace ∧ host.installed = .ok installed := by
  obtain ⟨⟨p, e⟩, hmem, hgiven⟩ := List.exists_of_findSome?_eq_some h
  cases e with
  | call | read | enter | answer => cases hgiven
  | hear host =>
      refine ⟨p, host, hmem, ?_⟩
      cases hhost : host.installed with
      | error fault => simp [ListEvent.given?, hhost, Except.toOption] at hgiven
      | ok installed' => simpa [ListEvent.given?, hhost, Except.toOption] using hgiven

/-- The caller asked the host and heard the fault, and no list had been given before. -/
def HeardFault (trace : Trace ι) (p : ι) (fault : HostFault) : Prop :=
  ∃ earlier host later, trace = earlier ++ (p, .hear host) :: later ∧ firstGiven earlier = none ∧
    host.installed = .error fault

theorem HeardFault.append (h : HeardFault trace p fault) (later : Trace ι) :
    HeardFault (trace ++ later) p fault := by
  obtain ⟨earlier, host, between, rfl, hnone, hfault⟩ := h
  exact ⟨earlier, host, between ++ later, by simp, hnone, hfault⟩

/-- What holds after a trace. A list is kept from the first time on that the host gave one, and
callers have either this list or a fault that they heard before. -/
structure Consistent (hostIdentifier : Option String) (trace : Trace ι)
    (s : SharedInventory ι) : Prop where
  inventory : s.inventory = { Inventory.empty hostIdentifier with
    packages := (firstGiven trace).map (kept hostIdentifier) }
  alone : ∀ p q, s.callers p = .filling → s.callers q = .filling → p = q
  unfilled : ∀ p, s.callers p = .filling → firstGiven trace = none
  listed : ∀ p records, (s.callers p).value? = some (.ok records) →
    (firstGiven trace).map (kept hostIdentifier) = some records
  failed : ∀ p fault, (s.callers p).value? = some (.error fault) → HeardFault trace p fault
  idle : ∀ p, s.callers p = .idle → ∀ e, (p, e) ∉ trace
  calls : s.calls = List.replicate (trace.countP fun move => move.2.isHearing) .inventory

theorem consistent_start (hostIdentifier : Option String) :
    Consistent hostIdentifier [] (start hostIdentifier : SharedInventory ι) where
  inventory := rfl
  alone := fun p q h => by cases h
  unfilled := fun p h => by cases h
  listed := fun p records h => by cases h
  failed := fun p fault h => by cases h
  idle := fun p h e => by simp
  calls := rfl

theorem Consistent.packages_eq (h : s.Consistent hostIdentifier trace) :
    s.inventory.packages = (firstGiven trace).map (kept hostIdentifier) := by
  rw [h.inventory]

variable [DecidableEq ι]

def move (s : SharedInventory ι) (p : ι) (c : ListCaller) : SharedInventory ι :=
  { s with callers := Function.update s.callers p c }

theorem callers_move (s : SharedInventory ι) (p : ι) (c : ListCaller) (q : ι) :
    (s.move p c).callers q = if q = p then c else s.callers q :=
  Function.update_apply ..

inductive Step (s : SharedInventory ι) (p : ι) : ListEvent → SharedInventory ι → Prop
  | call (hcaller : s.callers p = .idle) : Step s p .call (s.move p .waiting)
  | read {records} (hcaller : s.callers p = .waiting)
      (hkept : s.inventory.packages = some records) :
      Step s p .read (s.move p (.heard (.ok records)))
  | enter (hcaller : s.callers p = .waiting) (hempty : s.inventory.packages = none)
      (halone : ∀ q, s.callers q ≠ .filling) : Step s p .enter (s.move p .filling)
  | hear (host : Host) (hcaller : s.callers p = .filling) :
      Step s p (.hear host)
        { s.move p (.heard (s.inventory.list host).value) with
          inventory := (s.inventory.list host).inventory
          calls := s.calls ++ (s.inventory.list host).calls }
  | answer {value} (hcaller : s.callers p = .heard value) :
      Step s p .answer (s.move p (.answered value))

/-- The events of the trace lead from the start to the given state. -/
inductive Reaches (hostIdentifier : Option String) : Trace ι → SharedInventory ι → Prop
  | start : Reaches hostIdentifier [] (start hostIdentifier)
  | step {trace : Trace ι} {s s' : SharedInventory ι} {p : ι} {e : ListEvent}
      (hreach : Reaches hostIdentifier trace s) (hstep : s.Step p e s') :
      Reaches hostIdentifier (trace ++ [(p, e)]) s'

namespace Consistent

theorem notMem_of_idle (h : s.Consistent hostIdentifier trace) (hc : c ≠ .idle)
    (hq : (s.move p c).callers q = .idle) (e' : ListEvent) : (q, e') ∉ trace ++ [(p, e)] := by
  intro hmem
  rw [callers_move] at hq
  split_ifs at hq with hqp
  · exact hc hq
  · rcases List.mem_append.mp hmem with hmem | hmem
    · exact h.idle q hq e' hmem
    · exact hqp (congrArg Prod.fst (List.mem_singleton.mp hmem))

/-- Callers move on without the host. -/
theorem move (h : s.Consistent hostIdentifier trace) (hevent : e.isHearing = false)
    (hidle : c ≠ .idle)
    (hfilling : c = .filling → s.inventory.packages = none ∧ ∀ q, s.callers q ≠ .filling)
    (hvalue : ∀ value, c.value? = some value → (s.callers p).value? = some value ∨
      ∃ records, value = .ok records ∧ s.inventory.packages = some records) :
    (s.move p c).Consistent hostIdentifier (trace ++ [(p, e)]) := by
  have hgiven : firstGiven (trace ++ [(p, e)]) = firstGiven trace := by
    rw [firstGiven_concat, ListEvent.given?_of_not_isHearing hevent, Option.or_none]
  constructor
  · rw [hgiven]
    exact h.inventory
  · intro q q' hq hq'
    rw [callers_move] at hq hq'
    split_ifs at hq hq' with hp hp'
    · exact hp.trans hp'.symm
    · exact absurd hq' ((hfilling hq).2 q')
    · exact absurd hq ((hfilling hq').2 q)
    · exact h.alone q q' hq hq'
  · intro q hq
    rw [hgiven]
    rw [callers_move] at hq
    split_ifs at hq with hp
    · have hnone := (hfilling hq).1
      rwa [h.packages_eq, Option.map_eq_none_iff] at hnone
    · exact h.unfilled q hq
  · intro q records hq
    rw [hgiven]
    rw [callers_move] at hq
    split_ifs at hq with hp
    · rcases hvalue _ hq with hbefore | ⟨records', heq, hkept⟩
      · exact h.listed p records hbefore
      · cases heq
        rw [← h.packages_eq, hkept]
    · exact h.listed q records hq
  · intro q fault hq
    rw [callers_move] at hq
    apply HeardFault.append
    split_ifs at hq with hp
    · rcases hvalue _ hq with hbefore | ⟨records', heq, hkept⟩
      · rw [hp]
        exact h.failed p fault hbefore
      · cases heq
    · exact h.failed q fault hq
  · exact fun q => h.notMem_of_idle hidle
  · rw [List.countP_append, List.countP_singleton, hevent]
    exact h.calls

/-- A caller whose turn it is hears what the host answers. Nobody has a list before. -/
theorem hear (h : s.Consistent hostIdentifier trace) (hp : s.callers p = .filling) (host : Host) :
    Consistent hostIdentifier (trace ++ [(p, .hear host)])
      { s.move p (.heard (s.inventory.list host).value) with
        inventory := (s.inventory.list host).inventory
        calls := s.calls ++ (s.inventory.list host).calls } := by
  have hnone : firstGiven trace = none := h.unfilled p hp
  have hgiven : firstGiven (trace ++ [(p, .hear host)]) = host.installed.toOption := by
    rw [firstGiven_concat, hnone, Option.none_or]
    rfl
  have hempty : s.inventory = .empty hostIdentifier := by
    rw [h.inventory, hnone]
    rfl
  have hlist : s.inventory.list host = ⟨host.installed.map (kept hostIdentifier),
      { Inventory.empty hostIdentifier with
        packages := host.installed.toOption.map (kept hostIdentifier) }, [.inventory]⟩ := by
    rw [hempty]
    exact Inventory.list_of_none rfl
  rw [hlist]
  have hstill (q : ι) (hq : (s.move p (.heard (host.installed.map (kept hostIdentifier)))).callers
      q = .filling) : False := by
    rw [callers_move] at hq
    split_ifs at hq with hqp
    exact hqp (h.alone q p hq hp)
  constructor
  · rw [hgiven]
  · exact fun q q' hq => (hstill q hq).elim
  · exact fun q hq => (hstill q hq).elim
  · intro q records hq
    rw [callers_move] at hq
    split_ifs at hq with hqp
    · obtain ⟨installed, hhost, rfl⟩ := Inventory.map_eq_ok_iff.mp (Option.some.inj hq)
      rw [hgiven, hhost]
      rfl
    · have hlisted := h.listed q records hq
      rw [hnone] at hlisted
      cases hlisted
  · intro q fault hq
    rw [callers_move] at hq
    split_ifs at hq with hqp
    · rw [hqp]
      exact ⟨trace, host, [], rfl, hnone, Inventory.map_eq_error_iff.mp (Option.some.inj hq)⟩
    · exact (h.failed q fault hq).append _
  · exact fun q => h.notMem_of_idle (by simp)
  · rw [List.countP_append, List.countP_singleton, h.calls, List.replicate_add]
    rfl

theorem step (h : s.Consistent hostIdentifier trace) (hstep : s.Step p e s') :
    s'.Consistent hostIdentifier (trace ++ [(p, e)]) := by
  cases hstep with
  | call hcaller =>
      exact h.move rfl (by simp) (fun heq => by cases heq) (fun value heq => by cases heq)
  | read hcaller hkept =>
      refine h.move rfl (by simp) (fun heq => by cases heq) ?_
      rintro value ⟨rfl⟩
      exact .inr ⟨_, rfl, hkept⟩
  | enter hcaller hempty halone =>
      exact h.move rfl (by simp) (fun _ => ⟨hempty, halone⟩) (fun value heq => by cases heq)
  | hear host hcaller => exact h.hear hcaller host
  | answer hcaller =>
      refine h.move rfl (by simp) (fun heq => by cases heq) ?_
      intro value heq
      rw [hcaller]
      exact .inl heq

end Consistent

theorem Reaches.consistent (h : Reaches hostIdentifier trace s) :
    s.Consistent hostIdentifier trace := by
  induction h with
  | start => exact consistent_start hostIdentifier
  | step hreach hstep ih => exact ih.step hstep

/-- The host is asked only as long as it has given no list. -/
theorem Reaches.firstGiven_eq_none {earlier : Trace ι} {move : ι × ListEvent}
    (h : Reaches hostIdentifier trace s) (htrace : trace = earlier ++ move :: later)
    (hmove : move.2.isHearing = true) : firstGiven earlier = none := by
  induction h generalizing later with
  | start => simp at htrace
  | @step trace s s' p e hreach hstep ih =>
      rcases List.eq_nil_or_concat' later with rfl | ⟨later, last, rfl⟩
      · obtain ⟨rfl, heq⟩ := List.append_inj' htrace rfl
        obtain rfl : (p, e) = move := List.singleton_inj.mp heq
        cases hstep with
        | hear host hcaller => exact hreach.consistent.unfilled p hcaller
        | call | read | enter | answer => cases hmove
      · rw [← List.cons_append, ← List.append_assoc] at htrace
        exact ih (List.append_inj' htrace rfl).1

theorem Reaches.not_isHearing_of_given {installed : List InstalledPackage}
    (h : Reaches hostIdentifier (trace ++ later) s) (hgiven : firstGiven trace = some installed) :
    ∀ move ∈ later, move.2.isHearing = false := by
  intro move hmove
  by_contra hhearing
  obtain ⟨before, behind, rfl⟩ := List.append_of_mem hmove
  have hnone := h.firstGiven_eq_none (List.append_assoc ..).symm
    (Bool.eq_true_of_not_eq_false hhearing)
  rw [firstGiven_append, hgiven] at hnone
  cases hnone

theorem Reaches.calls_eq_of_given {installed : List InstalledPackage}
    (h : Reaches hostIdentifier trace s) (hgiven : firstGiven trace = some installed)
    (h' : Reaches hostIdentifier (trace ++ later) s') : s'.calls = s.calls := by
  have hnone : later.countP (fun move => move.2.isHearing) = 0 := by
    rw [List.countP_eq_zero]
    intro move hmove
    simp [h'.not_isHearing_of_given hgiven move hmove]
  rw [h'.consistent.calls, h.consistent.calls, List.countP_append, hnone, Nat.add_zero]

/-- A caller who begins after a list was given gets this list. -/
theorem Reaches.listed_of_idle {installed : List InstalledPackage}
    (h : Reaches hostIdentifier trace s) (hgiven : firstGiven trace = some installed)
    (hidle : s.callers p = .idle) (h' : Reaches hostIdentifier (trace ++ later) s')
    {value : Except HostFault (List PackageRecord)} (hvalue : (s'.callers p).value? = some value) :
    value = .ok (kept hostIdentifier installed) := by
  cases value with
  | ok records =>
      have hlisted := h'.consistent.listed p records hvalue
      rw [firstGiven_append, hgiven] at hlisted
      exact congrArg Except.ok (Option.some.inj hlisted).symm
  | error fault =>
      -- He would have asked the host, but neither before he began nor after the list was given.
      obtain ⟨earlier, host, behind, heq, hnone, -⟩ := h'.consistent.failed p fault hvalue
      have hmem : (p, ListEvent.hear host) ∈ trace ++ later := by
        rw [heq]
        simp
      rcases List.mem_append.mp hmem with hmem | hmem
      · exact absurd hmem (h.consistent.idle p hidle _)
      · have hnot := h'.not_isHearing_of_given hgiven _ hmem
        cases hnot

theorem Reaches.value_eq_of_hear (h : Reaches hostIdentifier trace s)
    (hhost : ∀ q host', (q, ListEvent.hear host') ∈ trace → host' = host)
    {value : Except HostFault (List PackageRecord)} (hvalue : (s.callers p).value? = some value) :
    value = ((Inventory.empty hostIdentifier).list host).value := by
  rw [Inventory.list_of_none rfl]
  cases value with
  | ok records =>
      obtain ⟨installed, hgiven, rfl⟩ :=
        Option.map_eq_some_iff.mp (h.consistent.listed p records hvalue)
      obtain ⟨q, host', hmem, hinstalled⟩ := exists_of_firstGiven hgiven
      rw [← hhost q host' hmem, hinstalled]
      rfl
  | error fault =>
      obtain ⟨earlier, host', later, rfl, -, hfault⟩ := h.consistent.failed p fault hvalue
      rw [← hhost p host' (by simp), hfault]
      rfl

/-- With a host that stays as it is, any order of turns gives what callers get who are served one
after another. -/
theorem Reaches.values_eq_listTimes {callers : ℕ} {trace : Trace (Fin callers)}
    {s : SharedInventory (Fin callers)} (h : Reaches hostIdentifier trace s)
    (hhost : ∀ q host', (q, ListEvent.hear host') ∈ trace → host' = host)
    (hall : ∀ p, ∃ value, (s.callers p).value? = some value) :
    (List.ofFn fun p => (s.callers p).value?) =
      ((Inventory.empty hostIdentifier).listTimes host callers).value.map some := by
  have hvalues : (fun p => (s.callers p).value?) =
      fun _ => some ((Inventory.empty hostIdentifier).list host).value := by
    funext p
    obtain ⟨value, hvalue⟩ := hall p
    rw [hvalue, h.value_eq_of_hear hhost hvalue]
  rw [hvalues, Inventory.value_listTimes, List.map_replicate, List.ofFn_const]

theorem Reaches.answer_cases {form : ListForm} {answer : Answer}
    (h : Reaches hostIdentifier trace s) (hanswer : (s.callers p).answer? form = some answer) :
    (∃ installed, firstGiven trace = some installed ∧
      answer = .ofList form (.ok (kept hostIdentifier installed))) ∨
    ∃ fault, HeardFault trace p fault ∧ answer = .failed (inventoryFailureChain fault) := by
  obtain ⟨value, hvalue, rfl⟩ := ListCaller.value?_of_answer? hanswer
  cases value with
  | ok records =>
      obtain ⟨installed, hgiven, rfl⟩ :=
        Option.map_eq_some_iff.mp (h.consistent.listed p records hvalue)
      exact .inl ⟨installed, hgiven, rfl⟩
  | error fault => exact .inr ⟨fault, h.consistent.failed p fault hvalue, rfl⟩

/-- As long as a caller is busy, somebody can go on, whatever the host would answer. -/
theorem exists_step (hbusy : (s.callers p).isBusy = true) (host : Host) :
    ∃ q e s', s.Step q e s' ∧ e ≠ .call ∧ (e.isHearing = true → e = .hear host) := by
  by_cases hfilling : ∃ q, s.callers q = .filling
  · obtain ⟨q, hq⟩ := hfilling
    exact ⟨q, _, _, .hear host hq, by simp, fun _ => rfl⟩
  · cases hcaller : s.callers p with
    | idle | answered => simp [hcaller, ListCaller.isBusy] at hbusy
    | filling => exact absurd ⟨p, hcaller⟩ hfilling
    | heard value => exact ⟨p, _, _, .answer hcaller, by simp, fun heq => by cases heq⟩
    | waiting =>
        -- Nobody is at the host, so that it is his turn unless there is a list to read.
        cases hkept : s.inventory.packages with
        | some records => exact ⟨p, _, _, .read hcaller hkept, by simp, fun heq => by cases heq⟩
        | none =>
            exact ⟨p, _, _, .enter hcaller hkept (not_exists.mp hfilling), by simp,
              fun heq => by cases heq⟩

section counting

variable [Fintype ι]

def failures (s : SharedInventory ι) : Finset ι :=
  Finset.univ.filter fun p => (s.callers p).hasFailed = true

theorem failures_move (h : c.hasFailed = (s.callers p).hasFailed) :
    (s.move p c).failures = s.failures := by
  apply Finset.filter_congr
  intro q _
  rw [callers_move]
  split_ifs with hq
  · rw [hq, h]
  · rfl

theorem failures_move_of_hasFailed (h : c.hasFailed = true) :
    (s.move p c).failures = insert p s.failures := by
  ext q
  rw [Finset.mem_insert, failures, failures, Finset.mem_filter_univ, Finset.mem_filter_univ,
    callers_move]
  by_cases hq : q = p <;> simp [hq, h]

theorem sum_stepsLeft_move_lt (h : c.stepsLeft < (s.callers p).stepsLeft) :
    ∑ q, ((s.move p c).callers q).stepsLeft < ∑ q, (s.callers q).stepsLeft := by
  apply Finset.sum_lt_sum
  · intro q _
    rw [callers_move]
    split_ifs with hq
    · rw [hq]
      exact h.le
    · exact le_rfl
  · refine ⟨p, Finset.mem_univ p, ?_⟩
    rwa [callers_move, if_pos rfl]

theorem Step.sum_stepsLeft_lt (h : s.Step p e s') :
    ∑ q, (s'.callers q).stepsLeft < ∑ q, (s.callers q).stepsLeft := by
  cases h with
  | call hcaller | read hcaller hkept | enter hcaller hempty halone | hear host hcaller
  | answer hcaller =>
      apply sum_stepsLeft_move_lt
      rw [hcaller]
      simp [ListCaller.stepsLeft]

theorem Reaches.length_add_sum_stepsLeft_le (h : Reaches hostIdentifier trace s) :
    trace.length + ∑ p, (s.callers p).stepsLeft ≤ 4 * Fintype.card ι := by
  induction h with
  | start => simp [ListCaller.stepsLeft, mul_comm]
  | step hreach hstep ih =>
      have hless := hstep.sum_stepsLeft_lt
      rw [List.length_append, List.length_singleton]
      omega

/-- The host is asked once for every caller who fails, and once for the list. -/
theorem Reaches.countP_isHearing (h : Reaches hostIdentifier trace s) :
    trace.countP (fun move => move.2.isHearing) =
      s.failures.card + if (firstGiven trace).isSome then 1 else 0 := by
  induction h with
  | start => simp [failures, firstGiven, ListCaller.hasFailed, ListCaller.value?]
  | @step trace s s' p e hreach hstep ih =>
      rw [List.countP_append, List.countP_singleton, firstGiven_concat, ih]
      cases hstep with
      | call hcaller | read hcaller hkept | enter hcaller hempty halone | answer hcaller =>
          rw [failures_move (by rw [hcaller]; rfl)]
          simp [ListEvent.isHearing, ListEvent.given?]
      | hear host hcaller =>
          -- Either the caller joins those who failed, or this is the first list that is given.
          have hnone := hreach.consistent.unfilled p hcaller
          have hfresh : p ∉ s.failures := by
            rw [failures, Finset.mem_filter_univ, hcaller]
            exact Bool.false_ne_true
          have hpackages : s.inventory.packages = none := by
            rw [hreach.consistent.packages_eq, hnone]
            rfl
          change s.failures.card + _ + _ =
            (s.move p (.heard (s.inventory.list host).value)).failures.card + _
          cases hhost : host.installed with
          | error fault =>
              rw [Inventory.list_of_error hpackages hhost, failures_move_of_hasFailed rfl,
                Finset.card_insert_of_notMem hfresh]
              simp [hnone, hhost, ListEvent.isHearing, ListEvent.given?, Except.toOption]
          | ok installed =>
              rw [Inventory.list_of_ok hpackages hhost, failures_move (by rw [hcaller]; rfl)]
              simp [hnone, hhost, ListEvent.isHearing, ListEvent.given?, Except.toOption]

theorem Reaches.calls_eq (h : Reaches hostIdentifier trace s) : s.calls = List.replicate
    (s.failures.card + if (firstGiven trace).isSome then 1 else 0) .inventory := by
  rw [h.consistent.calls, h.countP_isHearing]

end counting

/-- The list is frozen by the first success, whoever calls when and however the host changes. Before
it, callers fail with what they heard and nothing is kept. It fixes the list to the host's packages
of that moment, callers who begin later get this list, and the host is not asked again. So it has
been asked once for each failure, and once for the list. Nobody who has begun is ever stuck. -/
theorem list_frozen_by_first_success [Fintype ι] (form : ι → ListForm)
    (h : Reaches hostIdentifier trace s) :
    (firstGiven trace = none → s.inventory = .empty hostIdentifier ∧
      ∀ p answer, (s.callers p).answer? (form p) = some answer →
        ∃ fault, HeardFault trace p fault ∧ answer = .failed (inventoryFailureChain fault)) ∧
    (∀ installed, firstGiven trace = some installed →
      s.inventory = { Inventory.empty hostIdentifier with
        packages := some (kept hostIdentifier installed) } ∧
      (∀ p answer, (s.callers p).answer? (form p) = some answer →
        answer = .ofList (form p) (.ok (kept hostIdentifier installed)) ∨
        ∃ fault, HeardFault trace p fault ∧ answer = .failed (inventoryFailureChain fault)) ∧
      ∀ later s', Reaches hostIdentifier (trace ++ later) s' →
        s'.inventory = s.inventory ∧ s'.calls = s.calls ∧
        ∀ p answer, s.callers p = .idle → (s'.callers p).answer? (form p) = some answer →
          answer = .ofList (form p) (.ok (kept hostIdentifier installed))) ∧
    s.calls = List.replicate
      (s.failures.card + if (firstGiven trace).isSome then 1 else 0) .inventory ∧
    (∀ p, (s.callers p).isBusy = true → ∀ host, ∃ q e s',
      s.Step q e s' ∧ e ≠ .call ∧ (e.isHearing = true → e = .hear host)) ∧
    trace.length ≤ 4 * Fintype.card ι := by
  refine ⟨?_, ?_, h.calls_eq, fun p => exists_step, ?_⟩
  · intro hnone
    refine ⟨?_, ?_⟩
    · rw [h.consistent.inventory, hnone]
      rfl
    · intro p answer hanswer
      rcases h.answer_cases hanswer with ⟨installed, hgiven, -⟩ | hfailed
      · rw [hnone] at hgiven
        cases hgiven
      · exact hfailed
  · intro installed hgiven
    have hinventory : s.inventory = { Inventory.empty hostIdentifier with
        packages := some (kept hostIdentifier installed) } := by
      rw [h.consistent.inventory, hgiven]
      rfl
    refine ⟨hinventory, ?_, ?_⟩
    · intro p answer hanswer
      rcases h.answer_cases hanswer with ⟨installed', hgiven', heq⟩ | hfailed
      · rw [hgiven] at hgiven'
        cases hgiven'
        exact .inl heq
      · exact .inr hfailed
    · intro later s' h'
      refine ⟨?_, h.calls_eq_of_given hgiven h', ?_⟩
      · rw [h'.consistent.inventory, hinventory, firstGiven_append, hgiven]
        rfl
      · intro p answer hidle hanswer
        obtain ⟨value, hvalue, rfl⟩ := ListCaller.value?_of_answer? hanswer
        rw [h.listed_of_idle hgiven hidle h' hvalue]
  · exact (Nat.le_add_right ..).trans h.length_add_sum_stepsLeft_le

/-- The first of two waiting callers meets a fault, and the second one gets the list, in any form
that he may ask for. -/
theorem list_frozen_after_fault :
    let faulty := Registry.host ⟨[], none, some (.io "busy"), none⟩
    let giving := { faulty with installed := .ok [⟨"org.example.app", "app", false, 0, []⟩] }
    let trace : Trace (Fin 2) := [(0, .call), (1, .call), (0, .enter), (0, .hear faulty),
      (1, .enter), (0, .answer), (1, .hear giving), (1, .answer)]
    ∃ s, Reaches none trace s ∧
      (s.callers 0).answer? .records = some (.failed [inventoryFailure, "busy", "busy"]) ∧
      (s.callers 1).answer? .records = some (.records [⟨"org.example.app", "app", false, 0⟩]) ∧
      (s.callers 1).answer? .identifiers = some (.identifiers ["org.example.app"]) ∧
      (s.callers 1).answer? .text = some (.text ("[\x7b\"packageName\":\"org.example.app\"," ++
        "\"label\":\"app\",\"isSystem\":false,\"firstInstallTime\":0\x7d]")) ∧
      s.inventory.packages = some [⟨"org.example.app", "app", false, 0⟩] ∧
      s.calls = List.replicate (s.failures.card + 1) .inventory := by
  intro faulty giving trace
  have h : Reaches none [] (start none : SharedInventory (Fin 2)) := .start
  have h := h.step (.call (p := 0) rfl)
  have h := h.step (.call (p := 1) rfl)
  have h := h.step (.enter (p := 0) rfl rfl (Fin.forall_fin_two.mpr ⟨nofun, nofun⟩))
  have h := h.step (.hear (p := 0) faulty rfl)
  have h := h.step (.enter (p := 1) rfl rfl (Fin.forall_fin_two.mpr ⟨nofun, nofun⟩))
  have h := h.step (.answer (p := 0) rfl)
  have h := h.step (.hear (p := 1) giving rfl)
  have h := h.step (.answer (p := 1) rfl)
  obtain ⟨-, hlisted, hcount, -⟩ := list_frozen_by_first_success (fun _ => .records) h
  refine ⟨_, h, rfl, rfl, rfl, ?_, ?_, ?_⟩
  · decide +kernel
  · rw [(hlisted _ rfl).1]
    rfl
  · exact hcount

end SharedInventory

end VendorScreen
