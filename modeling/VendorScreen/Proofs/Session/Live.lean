import VendorScreen.Proofs.Batch.Interleaving
import VendorScreen.Proofs.Session.History
import VendorScreen.Registry

namespace VendorScreen

/-!
# A list that stays and answers that do not

The packages are listed once, but each of them is classified on the host as it is when somebody
asks. So stale identifiers meet fresh answers.
-/

namespace Registry

variable {registry : Registry} {p : RegisteredPackage} {id id' : String}

theorem find?_insertInto (p : RegisteredPackage) (packages : List RegisteredPackage) (id : String) :
    (insertInto p packages).find? (fun q => q.id = id) =
      if p.id = id then some p else packages.find? fun q => q.id = id := by
  induction packages with
  | nil =>
      rw [insertInto, List.find?_cons, List.find?_nil]
      by_cases hid : p.id = id <;> simp [hid]
  | cons q rest ih =>
      rw [insertInto]
      by_cases hq : q.id = p.id
      · rw [if_pos hq, List.find?_cons, List.find?_cons, hq]
        by_cases hid : p.id = id <;> simp [hid]
      · rw [if_neg hq, List.find?_cons, List.find?_cons, ih]
        by_cases hid : p.id = id
        · subst hid
          simp [hq]
        · rw [if_neg hid, if_neg hid]

theorem find?_insert : (registry.insert p).find? id =
    if p.id = id then some p else registry.find? id :=
  find?_insertInto p registry.packages id

theorem find?_erase : (registry.erase id').find? id =
    if id' = id then none else registry.find? id := by
  rw [find?, erase, List.find?_filter]
  by_cases hid : id' = id
  · subst hid
    rw [if_pos rfl, List.find?_eq_none]
    simp
  · rw [if_neg hid, find?]
    congr 1
    funext q
    rw [Bool.eq_iff_iff]
    simp only [decide_eq_true_eq]
    constructor
    · exact And.right
    · rintro rfl
      exact ⟨fun heq => hid heq.symm, rfl⟩

theorem answer_congr {registry' : Registry} {α : Type}
    (h : registry.find? id = registry'.find? id) (fault : RegisteredPackage → Option HostFault)
    (value : RegisteredPackage → Except HostFault α) :
    registry.answer id fault value = registry'.answer id fault value := by
  rw [answer, h, answer]

end Registry

namespace Inspector

variable {i : Inspector} {host host' : Host} {w : Waiting} {id : String} {ids : List String}

theorem ask_congr (hcomponents : host.components id = host'.components id)
    (harchive : host.archive id = host'.archive id) : i.ask host w id = i.ask host' w id := by
  rw [ask, classify_congr hcomponents harchive, ask]

/-- The query about the package is answered in time. -/
def IsAnswered (i : Inspector) (host : Host) (id : String) : Waiting → Prop
  | .inLine => ¬ i.MeetsTrap host id
  | .apart isOverdue => isOverdue id (i.classify host .never id) = false

theorem ask_eq_some_decide (hanswer : (i.ask host w id).value ≠ none)
    (hflags : (i.ask host w id).value = some true ↔ i.Flags host id) :
    (i.ask host w id).value = some (decide (i.Flags host id)) := by
  obtain ⟨flagged, hflagged⟩ := Option.ne_none_iff_exists'.mp hanswer
  rw [hflagged, Option.some.injEq] at hflags ⊢
  rw [Bool.eq_iff_iff, decide_eq_true_iff, hflags]

theorem ask_of_isAnswered (h : i.IsAnswered host id w) :
    (i.ask host w id).value = some (decide (i.Flags host id)) := by
  cases w with
  | inLine =>
      apply ask_eq_some_decide
      · exact fun hnone => h (ask_inLine_eq_none_iff.mp hnone)
      · exact flags_iff_ask_inLine.symm
  | apart isOverdue =>
      have hintime : isOverdue id (i.classify host .never id) = false := h
      apply ask_eq_some_decide
      · exact i.ask_apart_ne_none host isOverdue id
      · rw [ask_apart_eq_some_true_iff, hintime]
        exact and_iff_right Bool.false_ne_true

theorem keepFlagged?_eq_ite (i : Inspector) (host : Host) (w : Waiting) (ids : List String) :
    i.keepFlagged? host w ids =
      if ∃ id ∈ ids, (i.ask host w id).value = none then none
      else some (ids.filter fun id => (i.ask host w id).value = some true) := by
  split_ifs with h
  · exact (keepFlagged?_eq_none_iff ..).mpr h
  · cases hkept : i.keepFlagged? host w ids with
    | none => exact absurd ((keepFlagged?_eq_none_iff ..).mp hkept) h
    | some kept => rw [keepFlagged?_eq_some hkept]

end Inspector

/-- How the answer is presented when the request is for the flagged ones of all packages. -/
def Request.presentsFlagged? : Request → Option (List String → Answer)
  | flaggedPackages => some .identifiers
  | flaggedText => some fun ids => .text (Json.texts ids).write
  | packages _ | isFlagged _ | keepFlagged _ | classify _ | icon _ | defaultIcon => none

namespace Session

open Inventory (kept)

variable {i : Inspector} {w : Waiting} {s t : Session} {r : Request} {host : Host}
  {events : List Event} {id : String} {present : List String → Answer}

theorem serve_of_isClassification (h : r.isClassification = true) (hhost : s.host = t.host) :
    (s.serve i w r).answer = (t.serve i w r).answer ∧
      (s.serve i w r).calls = (t.serve i w r).calls := by
  cases r with
  | isFlagged | keepFlagged | classify => simp only [serve, hhost, and_self]
  | packages | flaggedPackages | flaggedText | icon | defaultIcon =>
      simp [Request.isClassification] at h

/-- The classification of a package is decided by its own components and archive. -/
theorem answer_serve_congr (hr : r = .isFlagged id ∨ r = .classify id)
    (hcomponents : s.host.components id = t.host.components id)
    (harchive : s.host.archive id = t.host.archive id) :
    (s.serve i w r).answer = (t.serve i w r).answer := by
  rcases hr with rfl | rfl
  · simp only [serve, Inspector.ask_congr hcomponents harchive]
  · simp only [serve, Inspector.classify_congr hcomponents harchive]

theorem answer_isFlagged_eq_abandoned_iff :
    (s.serve i w (.isFlagged id)).answer = .abandoned ↔ (i.ask s.host w id).value = none := by
  simp only [serve]
  cases (i.ask s.host w id).value <;> simp [Answer.ofFlag?]

theorem answer_isFlagged_eq_flagged_iff {isFlagged : Bool} :
    (s.serve i w (.isFlagged id)).answer = .flagged isFlagged ↔
      (i.ask s.host w id).value = some isFlagged := by
  simp only [serve]
  cases (i.ask s.host w id).value <;> simp [Answer.ofFlag?]

/-- The packages among these that are flagged, as if each were asked about. -/
theorem ofKept?_keepFlagged? (ids : List String) :
    Answer.ofKept? present (i.keepFlagged? s.host w ids) =
      if ∃ id ∈ ids, (s.serve i w (.isFlagged id)).answer = .abandoned then .abandoned
      else present (ids.filter fun id => (s.serve i w (.isFlagged id)).answer = .flagged true) := by
  simp only [Inspector.keepFlagged?_eq_ite, answer_isFlagged_eq_abandoned_iff,
    answer_isFlagged_eq_flagged_iff]
  split <;> rfl

theorem listsPackages_of_presentsFlagged? (h : r.presentsFlagged? = some present) :
    r.listsPackages = true := by
  cases r with
  | flaggedPackages | flaggedText => rfl
  | packages | isFlagged | keepFlagged | classify | icon | defaultIcon => cases h

theorem serve_of_presentsFlagged? (h : r.presentsFlagged? = some present) :
    s.serve i w r = s.flaggedPackages i w present := by
  cases r with
  | flaggedPackages | flaggedText =>
      cases h
      rfl
  | packages | isFlagged | keepFlagged | classify | icon | defaultIcon => cases h

theorem answer_of_listed {records : List PackageRecord} (hr : r.presentsFlagged? = some present)
    (hlisted : (s.inventory.list s.host).inventory.packages = some records) :
    let ids := records.map PackageRecord.packageName
    (s.serve i w r).answer =
      if ∃ id ∈ ids, (s.serve i w (.isFlagged id)).answer = .abandoned then .abandoned
      else present (ids.filter fun id => (s.serve i w (.isFlagged id)).answer = .flagged true) := by
  intro ids
  rcases Inventory.list_cases s.host s.inventory with ⟨records', hkept, hvalue⟩ | ⟨fault, hnone, -⟩
  · obtain rfl : records = records' := Option.some.inj (hlisted.symm.trans hkept)
    rw [← ofKept?_keepFlagged?, serve_of_presentsFlagged? hr]
    simp only [flaggedPackages, hvalue, Inventory.identifiers, ids]
  · rw [hnone] at hlisted
    cases hlisted

theorem answer_of_not_listed (hr : r.presentsFlagged? = some present)
    (hnone : (s.inventory.list s.host).inventory.packages = none) :
    ∃ fault, s.host.installed = .error fault ∧
      (s.serve i w r).answer = .failed (inventoryFailureChain fault) := by
  rcases Inventory.list_cases s.host s.inventory with ⟨records, hkept, -⟩ |
    ⟨fault, -, hfault, hvalue⟩
  · rw [hnone] at hkept
    cases hkept
  · refine ⟨fault, hfault, ?_⟩
    rw [serve_of_presentsFlagged? hr]
    simp only [flaggedPackages, hvalue]

theorem answer_isFlagged_of_isAnswered (h : i.IsAnswered s.host id w) :
    (s.serve i w (.isFlagged id)).answer = .flagged (decide (i.Flags s.host id)) :=
  answer_isFlagged_eq_flagged_iff.mpr (Inspector.ask_of_isAnswered h)

theorem answer_of_isAnswered {records : List PackageRecord}
    (hr : r.presentsFlagged? = some present)
    (hlisted : (s.inventory.list s.host).inventory.packages = some records)
    (hanswered : ∀ id ∈ records.map PackageRecord.packageName, i.IsAnswered s.host id w) :
    (s.serve i w r).answer =
      present ((records.map PackageRecord.packageName).filter fun id => i.Flags s.host id) := by
  rw [answer_of_listed hr hlisted, if_neg]
  · refine congrArg present (List.filter_congr ?_)
    intro id hid
    rw [answer_isFlagged_of_isAnswered (hanswered id hid)]
    simp
  · rintro ⟨id, hid, habandoned⟩
    rw [answer_isFlagged_of_isAnswered (hanswered id hid)] at habandoned
    cases habandoned

section registries

variable {registry registry' : Registry} {p : RegisteredPackage}

/-- What a request gets once the host has changed to a registry. -/
def answerOn (i : Inspector) (w : Waiting) (s : Session) (r : Request) (registry : Registry) :
    Answer :=
  ((s.next i w (.change registry.host)).serve i w r).answer

theorem answerOn_congr (hr : r = .isFlagged id ∨ r = .classify id)
    (h : registry.find? id = registry'.find? id) :
    s.answerOn i w r registry = s.answerOn i w r registry' :=
  answer_serve_congr hr (Registry.answer_congr h _ _) (Registry.answer_congr h _ _)

theorem answerOn_insert (hr : r = .isFlagged id ∨ r = .classify id) :
    s.answerOn i w r (registry.insert p) =
      if p.id = id then s.answerOn i w r ⟨[p], none, none, none⟩
      else s.answerOn i w r registry := by
  split_ifs with hid
  · apply answerOn_congr hr
    rw [Registry.find?_insert, if_pos hid]
    simp [Registry.find?, hid]
  · apply answerOn_congr hr
    rw [Registry.find?_insert, if_neg hid]

theorem answerOn_erase {id' : String} (hr : r = .isFlagged id ∨ r = .classify id) :
    s.answerOn i w r (registry.erase id') =
      if id' = id then s.answerOn i w r ⟨[], none, none, none⟩
      else s.answerOn i w r registry := by
  split_ifs with hid
  · apply answerOn_congr hr
    rw [Registry.find?_erase, if_pos hid]
    rfl
  · apply answerOn_congr hr
    rw [Registry.find?_erase, if_neg hid]

end registries

/-- The list that a request for it gets, its own question to the host included. -/
theorem packages_list_after (hostIdentifier : Option String) (hr : r.listsPackages = true) :
    let s := after i w ⟨host, .empty hostIdentifier⟩ events
    (s.inventory.list s.host).inventory.packages =
      (firstAt listedFor host (events ++ [.ask r])).map (kept hostIdentifier) := by
  intro s
  have hpackages : (after i w ⟨host, .empty hostIdentifier⟩ (events ++ [.ask r])).inventory.packages
      = _ := packages_after (events ++ [.ask r])
  rw [after_append, after_cons, after_nil, next, session_serve_of_listsPackages hr] at hpackages
  exact hpackages.trans (Option.none_or ..)

/-- The flagged ones of all packages are those of the list that was frozen when the host first gave
one, in its order, whose classification on the host as it is now is positive. Classifications and
icons leave that list as it is. Nothing but the host makes a difference to a classification, and so
each change of the host shows in the next one. -/
theorem flagged_of_frozen_list_follow_host (i : Inspector) (w : Waiting)
    (hostIdentifier : Option String) (host : Host) (events : List Event) :
    let start : Session := ⟨host, .empty hostIdentifier⟩
    let s := start.after i w events
    let now := lastHost host events
    (∀ r present, r.presentsFlagged? = some present →
      let frozen := firstAt listedFor host (events ++ [.ask r])
      (frozen = none → ∃ fault, now.installed = .error fault ∧
        (s.serve i w r).answer = .failed (inventoryFailureChain fault)) ∧
      ∀ installed, frozen = some installed →
        let ids := (kept hostIdentifier installed).map PackageRecord.packageName
        ((s.serve i w r).answer =
          if ∃ id ∈ ids, (s.serve i w (.isFlagged id)).answer = .abandoned then .abandoned
          else present (ids.filter fun id =>
            (s.serve i w (.isFlagged id)).answer = .flagged true)) ∧
        ((∀ id ∈ ids, i.IsAnswered now id w) →
          (s.serve i w r).answer = present (ids.filter fun id => i.Flags now id))) ∧
    (∀ id, i.IsAnswered now id w →
      (s.serve i w (.isFlagged id)).answer = .flagged (decide (i.Flags now id))) ∧
    (∀ isLeftOut : Request → Bool, (∀ r, isLeftOut r = true → r.listsPackages = false) →
      (start.after i w (without isLeftOut events)).inventory.packages = s.inventory.packages) ∧
    (∀ r, r.isClassification = true →
      (s.serve i w r).session = s ∧
      (∀ isLeftOut, let t := start.after i w (without isLeftOut events)
        (s.serve i w r).answer = (t.serve i w r).answer ∧
          (s.serve i w r).calls = (t.serve i w r).calls) ∧
      ∀ host' inventory, ((s.next i w (.change host')).serve i w r).answer =
        (serve ⟨host', inventory⟩ i w r).answer) ∧
    ∀ id r, r = .isFlagged id ∨ r = .classify id →
      let answerOn (registry : Registry) :=
        ((s.next i w (.change registry.host)).serve i w r).answer
      ∀ registry,
        (∀ p, answerOn (registry.insert p) =
          if p.id = id then answerOn ⟨[p], none, none, none⟩ else answerOn registry) ∧
        ∀ id', answerOn (registry.erase id') =
          if id' = id then answerOn ⟨[], none, none, none⟩ else answerOn registry := by
  intro start s now
  have hnow : s.host = now := host_after
  refine ⟨?_, ?_, ?_, ?_, ?_⟩
  · intro r present hr frozen
    have hlist : (s.inventory.list s.host).inventory.packages =
        frozen.map (kept hostIdentifier) :=
      packages_list_after hostIdentifier (listsPackages_of_presentsFlagged? hr)
    refine ⟨?_, ?_⟩
    · intro hfrozen
      rw [hfrozen] at hlist
      rw [← hnow]
      exact answer_of_not_listed hr hlist
    · intro installed hfrozen ids
      rw [hfrozen] at hlist
      refine ⟨answer_of_listed hr hlist, ?_⟩
      rw [← hnow]
      exact answer_of_isAnswered hr hlist
  · intro id
    rw [← hnow]
    exact answer_isFlagged_of_isAnswered
  · intro isLeftOut hout
    rw [packages_after, packages_after, firstAt_without]
    intro r host' hr
    rw [listedFor, hout r hr]
    rfl
  · intro r hr
    refine ⟨session_serve_of_isClassification hr, ?_, ?_⟩
    · intro isLeftOut t
      apply serve_of_isClassification hr
      rw [hnow, host_after, lastHost_without]
    · intro host' inventory
      refine (serve_of_isClassification hr ?_).1
      rfl
  · intro id r hr answerOn registry
    exact ⟨fun p => answerOn_insert hr, fun id' => answerOn_erase hr⟩

def vendorOnly : Inspector := ⟨⟨[], ["com.vendor"]⟩, 25, fun _ _ => .ok []⟩

/-- Queries that always end in time. -/
def inTime : Waiting := .apart fun _ _ => false

def declaring (id className : String) : RegisteredPackage :=
  ⟨id, some ⟨id, "", false, 0, []⟩, [className], none, none, none, none, none, none, false⟩

/-- A host that cannot list its packages yet. -/
def busyRegistry : Registry := ⟨[], none, some (.io "busy"), none⟩

/-- Two packages of the vendor, and the application that asks. -/
def pushRegistry : Registry :=
  ⟨["org.b", "org.own", "org.a"].map fun id => declaring id "com.vendor.Push", none, none, none⟩

/-- One of them is replaced by another version, and a new one is added. -/
def changedRegistry : Registry :=
  (pushRegistry.insert (declaring "org.b" "org.b.Main")).insert
    (declaring "org.c" "com.vendor.Push")

/-- The first request fails, the second one fixes the list, and after a change of the host the same
list is filtered in another way. -/
theorem flagged_of_frozen_list_follow_host_sample :
    let start : Session := ⟨busyRegistry.host, .empty (some "org.own")⟩
    let answer (events : List Event) (r : Request) :=
      ((start.after vendorOnly inTime events).serve vendorOnly inTime r).answer
    let listing := [.ask .flaggedPackages, .change pushRegistry.host]
    let changing := listing ++ [.ask .flaggedPackages, .ask .defaultIcon,
      .change changedRegistry.host]
    answer [] .flaggedPackages = .failed [inventoryFailure, "busy", "busy"] ∧
      answer listing .flaggedPackages = .identifiers ["org.b", "org.a"] ∧
      answer changing .flaggedPackages = .identifiers ["org.a"] ∧
      answer changing .flaggedText = .text "[\"org.a\"]" ∧
      answer changing (.isFlagged "org.b") = .flagged false ∧
      answer changing (.isFlagged "org.c") = .flagged true := by
  intro start answer listing changing
  have hagrees (events : List Event) :=
    flagged_of_frozen_list_follow_host vendorOnly inTime (some "org.own") busyRegistry.host events
  have hanswered (host : Host) (id : String) : vendorOnly.IsAnswered host id inTime := rfl
  have hflagged (events : List Event) := (hagrees events).1
  refine ⟨?_, ?_, ?_, ?_, ?_, ?_⟩
  · obtain ⟨fault, hfault, hfailed⟩ := (hflagged [] .flaggedPackages _ rfl).1 rfl
    obtain rfl : HostFault.io "busy" = fault := Except.error.inj hfault
    exact hfailed
  · refine (((hflagged listing .flaggedPackages _ rfl).2 _ rfl).2 ?_).trans ?_
    · exact fun id _ => hanswered _ id
    · decide +kernel
  · refine (((hflagged changing .flaggedPackages _ rfl).2 _ rfl).2 ?_).trans ?_
    · exact fun id _ => hanswered _ id
    · decide +kernel
  · refine (((hflagged changing .flaggedText _ rfl).2 _ rfl).2 ?_).trans ?_
    · exact fun id _ => hanswered _ id
    · decide +kernel
  · refine ((hagrees changing).2.1 "org.b" (hanswered _ _)).trans ?_
    decide +kernel
  · refine ((hagrees changing).2.1 "org.c" (hanswered _ _)).trans ?_
    decide +kernel

end Session

end VendorScreen
