import VendorScreen.Proofs.Base64
import VendorScreen.Proofs.Query.Calls
import VendorScreen.Proofs.Session.History

namespace VendorScreen

/-!
# Icons over whole sessions

An icon that was supplied once is answered without another question. The default icon is asked for
at most once, and what came of it stands in for every icon that is missing later, however the host
may have changed.
-/

def Call.asksForIcon : Call → Bool
  | .icon _ | .defaultIcon => true
  | .inventory | .components _ | .archive _ | .decode _ _ => false

theorem Call.asksForIcon_of_isOfQuery {id : String} {call : Call} (h : call.isOfQuery id = true) :
    call.asksForIcon = false := by
  cases call with
  | components | archive | decode => rfl
  | inventory | icon | defaultIcon => simp [isOfQuery] at h

namespace Inventory

variable {host : Host} {inv : Inventory} {id : String} {icons : List (String × String)}

theorem asksForIcon_of_mem_list {call : Call} (h : call ∈ (inv.list host).calls) :
    call.asksForIcon = false := by
  unfold list at h
  split at h
  · simp at h
  · split at h
    · rw [List.mem_singleton.mp h]
      rfl
    · rw [List.mem_singleton.mp h]
      rfl

/-- How often the host may still be asked for the default icon. -/
def standInsLeft (inv : Inventory) : ℕ := if inv.standIn = none then 1 else 0

theorem standIn_defaultIcon :
    (inv.defaultIcon host).inventory.standIn = some (inv.defaultIcon host).value := by
  cases h : inv.standIn with
  | some icon => rw [defaultIcon_of_standIn h, h]
  | none => rw [defaultIcon_of_none h]

theorem calls_defaultIcon :
    (inv.defaultIcon host).calls = List.replicate inv.standInsLeft .defaultIcon := by
  unfold standInsLeft
  cases h : inv.standIn with
  | some icon =>
      rw [defaultIcon_of_standIn h]
      rfl
  | none =>
      rw [defaultIcon_of_none h]
      rfl

theorem standInsLeft_defaultIcon : (inv.defaultIcon host).inventory.standInsLeft = 0 := by
  rw [standInsLeft, standIn_defaultIcon, if_neg (Option.some_ne_none _)]

theorem count_calls_defaultIcon_add : (inv.defaultIcon host).calls.count .defaultIcon +
    (inv.defaultIcon host).inventory.standInsLeft = inv.standInsLeft := by
  rw [calls_defaultIcon, List.count_replicate_self, standInsLeft_defaultIcon, Nat.add_zero]

theorem count_calls_icon_add : (inv.icon host id).calls.count .defaultIcon +
    (inv.icon host id).inventory.standInsLeft = inv.standInsLeft := by
  rcases icon_cases host inv id with ⟨text, -, h⟩ | ⟨bytes, -, -, h⟩ | ⟨-, -, h⟩
  · rw [h]
    exact Nat.zero_add _
  · rw [h]
    exact Nat.zero_add _
  · rw [h, List.count_cons_of_ne (by simp)]
    exact count_calls_defaultIcon_add

theorem standIn_eq_none_of_mem_calls (h : .defaultIcon ∈ (inv.defaultIcon host).calls) :
    inv.standIn = none := by
  rw [calls_defaultIcon] at h
  by_contra hne
  rw [standInsLeft, if_neg hne] at h
  simp at h

theorem icon_of_mem_calls (h : .defaultIcon ∈ (inv.icon host id).calls) :
    inv.standIn = none ∧ (inv.icon host id).value = askedStandIn host ∧
      (inv.icon host id).inventory.standIn = some (askedStandIn host) := by
  rcases icon_cases host inv id with ⟨text, -, heq⟩ | ⟨bytes, -, -, heq⟩ | ⟨-, -, heq⟩
  · rw [heq] at h
    simp at h
  · rw [heq] at h
    simp at h
  · rw [heq] at h ⊢
    have hnone := standIn_eq_none_of_mem_calls (List.mem_of_ne_of_mem (by simp) h)
    rw [defaultIcon_of_none hnone]
    exact ⟨hnone, rfl, rfl⟩

theorem standIn_icon_of_eq_some {icon : Option String} (h : inv.standIn = some icon) :
    (inv.icon host id).inventory.standIn = some icon := by
  rcases icon_cases host inv id with ⟨text, -, heq⟩ | ⟨bytes, -, -, heq⟩ | ⟨-, -, heq⟩
  · rw [heq, h]
  · rw [heq, h]
  · rw [heq, defaultIcon_of_standIn h, h]

theorem askedStandIn_eq_some {text : String} (h : askedStandIn host = some text) :
    ∃ bytes, host.defaultIcon = .ok (some bytes) ∧ text = Base64.encode bytes := by
  unfold askedStandIn at h
  split at h
  · rename_i icon hicon
    obtain ⟨bytes, rfl, rfl⟩ := Option.map_eq_some_iff.mp h
    exact ⟨bytes, hicon, rfl⟩
  · cases h

def withIcons (inv : Inventory) (icons : List (String × String)) : Inventory := { inv with icons }

theorem list_withIcons : (inv.withIcons icons).list host =
    { inv.list host with inventory := (inv.list host).inventory.withIcons icons } := by
  cases h : inv.packages with
  | some records =>
      have h' : (inv.withIcons icons).packages = some records := h
      rw [list_of_packages h, list_of_packages h']
  | none =>
      have h' : (inv.withIcons icons).packages = none := h
      cases hhost : host.installed with
      | error fault => rw [list_of_error h hhost, list_of_error h' hhost]
      | ok installed =>
          rw [list_of_ok h hhost, list_of_ok h' hhost]
          rfl

theorem defaultIcon_withIcons : (inv.withIcons icons).defaultIcon host =
    { inv.defaultIcon host with
      inventory := (inv.defaultIcon host).inventory.withIcons icons } := by
  cases h : inv.standIn with
  | some icon =>
      have h' : (inv.withIcons icons).standIn = some icon := h
      rw [defaultIcon_of_standIn h, defaultIcon_of_standIn h']
  | none =>
      have h' : (inv.withIcons icons).standIn = none := h
      rw [defaultIcon_of_none h, defaultIcon_of_none h']
      rfl

/-- The icons are the same, those of one package apart. -/
def AgreeApart (id : String) (icons icons' : List (String × String)) : Prop :=
  ∀ id' ≠ id, icons.lookup id' = icons'.lookup id'

theorem AgreeApart.cons {id' text : String} {icons' : List (String × String)}
    (h : AgreeApart id icons icons') :
    AgreeApart id ((id', text) :: icons) ((id', text) :: icons') := by
  intro id'' hid
  simp only [List.lookup_cons, h id'' hid]

theorem icon_withIcons {id' : String} (h : AgreeApart id icons inv.icons) (hid : id' ≠ id) :
    ∃ icons', AgreeApart id icons' (inv.icon host id').inventory.icons ∧
      (inv.withIcons icons).icon host id' =
        { inv.icon host id' with inventory := (inv.icon host id').inventory.withIcons icons' } := by
  have hlookup : (inv.withIcons icons).icons.lookup id' = inv.icons.lookup id' := h id' hid
  rcases icon_cases host inv id' with ⟨text, hcached, heq⟩ | ⟨bytes, hcached, hhost, heq⟩ |
    ⟨hcached, hhost, heq⟩
  · rw [heq, icon_of_lookup (hlookup.trans hcached)]
    exact ⟨icons, h, rfl⟩
  · rw [heq, icon_of_supplied (hlookup.trans hcached) hhost]
    exact ⟨_, h.cons, rfl⟩
  · rw [heq, icon_of_not_supplied (hlookup.trans hcached) hhost, defaultIcon_withIcons]
    refine ⟨icons, ?_, rfl⟩
    rwa [icons_defaultIcon]

end Inventory

namespace Session

open Inventory (AgreeApart askedStandIn suppliedIcon)

variable {i : Inspector} {w : Waiting} {s : Session} {r : Request} {host : Host}
  {events later : List Event} {id text : String} {icons : List (String × String)}

def withIcons (s : Session) (icons : List (String × String)) : Session :=
  { s with inventory := s.inventory.withIcons icons }

theorem packages_withIcons (form : ListForm) : (s.withIcons icons).packages form =
    { s.packages form with session := (s.packages form).session.withIcons icons } := by
  simp only [packages, withIcons, Inventory.list_withIcons]

theorem flaggedPackages_withIcons (present : List String → Answer) :
    (s.withIcons icons).flaggedPackages i w present =
      { s.flaggedPackages i w present with
        session := (s.flaggedPackages i w present).session.withIcons icons } := by
  simp only [flaggedPackages, withIcons, Inventory.list_withIcons]
  cases (s.inventory.list s.host).value <;> rfl

/-- What is kept for one package matters to no request but those for its icon. -/
theorem serve_withIcons (h : AgreeApart id icons s.inventory.icons) (hr : r ≠ .icon id) :
    ∃ icons', AgreeApart id icons' (s.serve i w r).session.inventory.icons ∧
      (s.withIcons icons).serve i w r =
        { s.serve i w r with session := (s.serve i w r).session.withIcons icons' } := by
  cases r with
  | packages form =>
      refine ⟨icons, ?_, packages_withIcons form⟩
      rwa [session_serve_of_listsPackages rfl, Inventory.icons_list]
  | flaggedPackages | flaggedText =>
      refine ⟨icons, ?_, flaggedPackages_withIcons _⟩
      rwa [session_serve_of_listsPackages rfl, Inventory.icons_list]
  | isFlagged | keepFlagged | classify => exact ⟨icons, h, rfl⟩
  | icon id' =>
      have hid : id' ≠ id := fun heq => hr (congrArg Request.icon heq)
      obtain ⟨icons', h', heq⟩ := Inventory.icon_withIcons h hid
      exact ⟨icons', h', congrArg (s.withIcons icons).iconService heq⟩
  | defaultIcon =>
      refine ⟨icons, ?_, congrArg (s.withIcons icons).iconService Inventory.defaultIcon_withIcons⟩
      rwa [session_serve_defaultIcon, Inventory.icons_defaultIcon]

/-- A session that has kept a package's icon goes on as one that has not, and that is not asked for
it again. -/
theorem after_withIcons (hcached : icons.lookup id = some text)
    (h : AgreeApart id icons s.inventory.icons) (later : List Event) :
    ∃ icons', icons'.lookup id = some text ∧
      AgreeApart id icons' (s.after i w (without (· = .icon id) later)).inventory.icons ∧
      (s.withIcons icons).after i w later =
        (s.after i w (without (· = .icon id) later)).withIcons icons' := by
  induction later generalizing s icons with
  | nil => exact ⟨icons, hcached, h, rfl⟩
  | cons e rest ih =>
      cases e with
      | change host => exact ih (s := { s with host }) hcached h
      | ask request =>
          rw [after_cons, without]
          by_cases hid : request = .icon id
          · -- What is kept answers the request, so that the session stays as it is.
            have hkept : (s.withIcons icons).inventory.icons.lookup id = some text := hcached
            rw [if_pos (decide_eq_true hid), hid, next, session_serve_icon,
              Inventory.icon_of_lookup hkept]
            exact ih hcached h
          · obtain ⟨icons', h', heq⟩ := serve_withIcons (i := i) (w := w) h hid
            have hcached' : icons'.lookup id = some text := by
              have hkept :
                  ((s.withIcons icons).serve i w request).session.inventory.icons.lookup id =
                    some text := lookup_icons_serve_of_eq_some hcached
              rwa [heq] at hkept
            rw [if_neg (by simpa using hid), next, heq]
            exact ih hcached' h'

theorem asksForIcon_of_mem_calls {call : Call}
    (hr : r.listsPackages = true ∨ r.isClassification = true)
    (h : call ∈ (s.serve i w r).calls) : call.asksForIcon = false := by
  have hquery : ∀ ids, call ∈ i.batchCalls s.host w ids → call.asksForIcon = false := by
    intro ids hcall
    obtain ⟨id, -, hid⟩ := Inspector.isOfQuery_of_mem_batchCalls hcall
    exact Call.asksForIcon_of_isOfQuery hid
  cases r with
  | packages form => exact Inventory.asksForIcon_of_mem_list h
  | flaggedPackages | flaggedText =>
      simp only [serve, flaggedPackages] at h
      split at h
      · exact Inventory.asksForIcon_of_mem_list h
      · rcases List.mem_append.mp h with h | h
        · exact Inventory.asksForIcon_of_mem_list h
        · exact hquery _ h
  | isFlagged id => exact Call.asksForIcon_of_isOfQuery (Inspector.isOfQuery_of_mem_ask h)
  | keepFlagged ids => exact hquery ids h
  | classify id => exact Call.asksForIcon_of_isOfQuery (Inspector.isOfQuery_of_mem_classify h)
  | icon | defaultIcon => simp [Request.listsPackages, Request.isClassification] at hr

theorem standIn_serve_of_not_icons (hr : r.listsPackages = true ∨ r.isClassification = true) :
    (s.serve i w r).session.inventory.standIn = s.inventory.standIn := by
  rcases hr with hr | hr
  · rw [session_serve_of_listsPackages hr, Inventory.standIn_list]
  · rw [session_serve_of_isClassification hr]

/-- A request that asks for the default icon is the first to need it. What comes of it is the
answer, and stands in for missing icons from then on. -/
theorem defaultIcon_of_mem_calls (h : .defaultIcon ∈ (s.serve i w r).calls) :
    s.inventory.standIn = none ∧ (s.serve i w r).answer = .icon (askedStandIn s.host) ∧
      (s.serve i w r).session.inventory.standIn = some (askedStandIn s.host) := by
  rcases request_cases r with hr | hr | ⟨id, rfl⟩ | rfl
  · exact absurd (asksForIcon_of_mem_calls (.inl hr) h) (by simp [Call.asksForIcon])
  · exact absurd (asksForIcon_of_mem_calls (.inr hr) h) (by simp [Call.asksForIcon])
  · obtain ⟨hnone, hvalue, hkept⟩ := Inventory.icon_of_mem_calls h
    exact ⟨hnone, congrArg Answer.icon hvalue, hkept⟩
  · have hnone := Inventory.standIn_eq_none_of_mem_calls h
    have hvalue : (s.inventory.defaultIcon s.host).value = askedStandIn s.host := by
      rw [Inventory.defaultIcon_of_none hnone]
    refine ⟨hnone, congrArg Answer.icon hvalue, ?_⟩
    exact Inventory.standIn_defaultIcon.trans (congrArg some hvalue)

theorem count_defaultIcon_calls_add : (s.serve i w r).calls.count .defaultIcon +
    (s.serve i w r).session.inventory.standInsLeft = s.inventory.standInsLeft := by
  have hother (hr : r.listsPackages = true ∨ r.isClassification = true) :
      (s.serve i w r).calls.count .defaultIcon +
        (s.serve i w r).session.inventory.standInsLeft = s.inventory.standInsLeft := by
    have hnot : .defaultIcon ∉ (s.serve i w r).calls := fun h =>
      absurd (asksForIcon_of_mem_calls hr h) (by simp [Call.asksForIcon])
    rw [List.count_eq_zero_of_not_mem hnot, Nat.zero_add, Inventory.standInsLeft,
      standIn_serve_of_not_icons hr, Inventory.standInsLeft]
  rcases request_cases r with hr | hr | ⟨id, rfl⟩ | rfl
  · exact hother (.inl hr)
  · exact hother (.inr hr)
  · exact Inventory.count_calls_icon_add
  · exact Inventory.count_calls_defaultIcon_add

theorem count_defaultIcon_callsDuring_add (i : Inspector) (w : Waiting) (s : Session)
    (events : List Event) : (s.callsDuring i w events).count .defaultIcon +
    (s.after i w events).inventory.standInsLeft = s.inventory.standInsLeft := by
  induction events generalizing s with
  | nil => exact Nat.zero_add _
  | cons e rest ih =>
      cases e with
      | change host => exact ih (s := { s with host })
      | ask request =>
          rw [callsDuring, List.count_append, after_cons, Nat.add_assoc, next, ih,
            count_defaultIcon_calls_add]

theorem standIn_serve_of_eq_some {icon : Option String} (h : s.inventory.standIn = some icon) :
    (s.serve i w r).session.inventory.standIn = some icon := by
  rcases request_cases r with hr | hr | ⟨id, rfl⟩ | rfl
  · rw [standIn_serve_of_not_icons (.inl hr), h]
  · rw [standIn_serve_of_not_icons (.inr hr), h]
  · exact Inventory.standIn_icon_of_eq_some h
  · rw [session_serve_defaultIcon, Inventory.defaultIcon_of_standIn h, h]

theorem standIn_after_of_eq_some {icon : Option String} (h : s.inventory.standIn = some icon) :
    (s.after i w events).inventory.standIn = some icon := by
  induction events generalizing s with
  | nil => exact h
  | cons e rest ih =>
      cases e with
      | change host => exact ih (s := { s with host }) h
      | ask request => exact ih (standIn_serve_of_eq_some h)

theorem exists_of_mem_callsDuring {call : Call} (h : call ∈ s.callsDuring i w events) :
    ∃ earlier r later, events = earlier ++ .ask r :: later ∧
      call ∈ ((s.after i w earlier).serve i w r).calls := by
  induction events generalizing s with
  | nil => simp [callsDuring] at h
  | cons e rest ih =>
      cases e with
      | change host =>
          obtain ⟨earlier, r, later, heq, hcall⟩ := ih (s := { s with host }) h
          exact ⟨.change host :: earlier, r, later, by rw [heq]; rfl, hcall⟩
      | ask request =>
          rcases List.mem_append.mp h with h | h
          · exact ⟨[], request, rest, rfl, h⟩
          · obtain ⟨earlier, r, later, heq, hcall⟩ := ih h
            exact ⟨.ask request :: earlier, r, later, by rw [heq]; rfl, hcall⟩

theorem standIn_after_eq_none_iff (h : s.inventory.standIn = none) :
    (s.after i w events).inventory.standIn = none ↔
      .defaultIcon ∉ s.callsDuring i w events := by
  have hcount := count_defaultIcon_callsDuring_add i w s events
  rw [Inventory.standInsLeft, Inventory.standInsLeft, if_pos h] at hcount
  rw [← List.count_eq_zero]
  split at hcount
  · rename_i hnone
    exact iff_of_true hnone (by omega)
  · rename_i hsome
    exact iff_of_false hsome (by omega)

/-- What stands in for missing icons is what came of asking for the default icon, at the time of the
request that did. -/
theorem exists_of_standIn_after {icon : Option String} (h : s.inventory.standIn = none)
    (hafter : (s.after i w events).inventory.standIn = some icon) :
    ∃ earlier r later, events = earlier ++ .ask r :: later ∧
      .defaultIcon ∈ ((s.after i w earlier).serve i w r).calls ∧
        icon = askedStandIn (lastHost s.host earlier) := by
  have hasked : .defaultIcon ∈ s.callsDuring i w events := by
    by_contra hnot
    rw [(standIn_after_eq_none_iff h).mpr hnot] at hafter
    cases hafter
  obtain ⟨earlier, r, later, rfl, hcall⟩ := exists_of_mem_callsDuring hasked
  obtain ⟨-, -, hkept⟩ := defaultIcon_of_mem_calls hcall
  rw [after_append, after_cons, next, standIn_after_of_eq_some hkept, host_after] at hafter
  exact ⟨earlier, r, later, rfl, hcall, (Option.some.inj hafter).symm⟩

theorem serve_icon_of_lookup (h : s.inventory.icons.lookup id = some text) :
    s.serve i w (.icon id) = ⟨.icon (some text), s, []⟩ := by
  rw [serve, Inventory.icon_of_lookup h]
  rfl

theorem serve_defaultIcon_of_standIn {icon : Option String} (h : s.inventory.standIn = some icon) :
    s.serve i w .defaultIcon = ⟨.icon icon, s, []⟩ := by
  rw [serve, Inventory.defaultIcon_of_standIn h]
  rfl

theorem serve_icon_of_supplied {bytes : ByteArray} (h : s.inventory.icons.lookup id = none)
    (hhost : suppliedIcon s.host id = some bytes) : s.serve i w (.icon id) =
      ⟨.icon (some (Base64.encode bytes)),
        s.withIcons ((id, Base64.encode bytes) :: s.inventory.icons), [.icon id]⟩ := by
  rw [serve, Inventory.icon_of_supplied h hhost]
  rfl

theorem serve_icon_of_not_supplied (h : s.inventory.icons.lookup id = none)
    (hhost : suppliedIcon s.host id = none) : s.serve i w (.icon id) =
      { s.serve i w .defaultIcon with calls := .icon id :: (s.serve i w .defaultIcon).calls } := by
  rw [serve, Inventory.icon_of_not_supplied h hhost]
  rfl

theorem lookup_icons_after_empty (hostIdentifier : Option String) (id : String) :
    (after i w ⟨host, .empty hostIdentifier⟩ events).inventory.icons.lookup id =
      (firstAt (suppliedFor id) host events).map Base64.encode :=
  (lookup_icons_after id).trans (Option.none_or ..)

/-- The calls and answers of other requests are not changed by keeping a package's icon. -/
theorem serve_after_icon_of_supplied {bytes : ByteArray} (h : s.inventory.icons.lookup id = none)
    (hhost : suppliedIcon s.host id = some bytes) (hr : r ≠ .icon id) :
    let cached := ((s.serve i w (.icon id)).session.after i w later).serve i w r
    let uncached := (s.after i w (without (· = .icon id) later)).serve i w r
    cached.answer = uncached.answer ∧ cached.calls = uncached.calls := by
  have hagree : AgreeApart id ((id, Base64.encode bytes) :: s.inventory.icons)
      s.inventory.icons := by
    intro id' hid
    rw [List.lookup_cons, beq_false_of_ne hid]
  obtain ⟨icons, -, hicons, hafter⟩ :=
    after_withIcons (i := i) (w := w) List.lookup_cons_self hagree later
  obtain ⟨icons', -, hserve⟩ := serve_withIcons (i := i) (w := w) hicons hr
  intro cached uncached
  have heq : cached = { uncached with session := uncached.session.withIcons icons' } := by
    change ((s.serve i w (.icon id)).session.after i w later).serve i w r = _
    rw [serve_icon_of_supplied h hhost, ← hserve, ← hafter]
  rw [heq]
  exact ⟨rfl, rfl⟩

/-- The three ways of keeping icons, over whole runs. A package's icon is kept from the first time
that the host supplies it, and other requests cannot tell. A missing one is asked for each time, and
the default icon is returned instead. That is asked for at most once, and whatever came of it is
what every later fallback returns. Every text that is kept is the standard form of bytes that the
host gave. -/
theorem icons_kept_over_runs (i : Inspector) (w : Waiting) (hostIdentifier : Option String)
    (host : Host) (events : List Event) :
    let start : Session := ⟨host, .empty hostIdentifier⟩
    let s := start.after i w events
    (∀ id bytes, firstAt (suppliedFor id) host events = some bytes → ∀ later,
      let t := s.after i w later
      t.serve i w (.icon id) = ⟨.icon (some (Base64.encode bytes)), t, []⟩) ∧
    (∀ id, firstAt (suppliedFor id) host events = none →
      let served := s.serve i w (.icon id)
      (∀ bytes, suppliedIcon s.host id = some bytes →
        served.answer = .icon (some (Base64.encode bytes)) ∧ served.calls = [.icon id] ∧
        ∀ later r, r ≠ .icon id →
          let cached := (served.session.after i w later).serve i w r
          let uncached := (s.after i w (without (· = .icon id) later)).serve i w r
          cached.answer = uncached.answer ∧ cached.calls = uncached.calls) ∧
      (suppliedIcon s.host id = none →
        let fallback := s.serve i w .defaultIcon
        served = { fallback with calls := .icon id :: fallback.calls } ∧
        served.session.inventory.icons = s.inventory.icons)) ∧
    ((start.callsDuring i w events).count .defaultIcon ≤ 1 ∧
      (s.serve i w .defaultIcon).calls =
        (if .defaultIcon ∈ start.callsDuring i w events then [] else [.defaultIcon]) ∧
      ∀ r, .defaultIcon ∈ (s.serve i w r).calls →
        (s.serve i w r).answer = .icon (askedStandIn s.host) ∧ ∀ later,
          let t := (s.serve i w r).session.after i w later
          t.serve i w .defaultIcon = ⟨.icon (askedStandIn s.host), t, []⟩ ∧
          ∀ id, firstAt (suppliedFor id) host (events ++ .ask r :: later) = none →
            suppliedIcon t.host id = none →
              t.serve i w (.icon id) = ⟨.icon (askedStandIn s.host), t, [.icon id]⟩) ∧
    (∀ id text, s.inventory.icons.lookup id = some text → ∃ bytes,
      firstAt (suppliedFor id) host events = some bytes ∧ Base64.IsStandard text bytes ∧
        Base64.decode? text = some bytes) ∧
    ∀ text, s.inventory.standIn = some (some text) → ∃ earlier r later bytes,
      events = earlier ++ .ask r :: later ∧
        .defaultIcon ∈ ((start.after i w earlier).serve i w r).calls ∧
        (lastHost host earlier).defaultIcon = .ok (some bytes) ∧
        Base64.IsStandard text bytes ∧ Base64.decode? text = some bytes := by
  intro start s
  have hlookup (id : String) : s.inventory.icons.lookup id =
      (firstAt (suppliedFor id) host events).map Base64.encode :=
    lookup_icons_after_empty hostIdentifier id
  refine ⟨?_, ?_, ⟨?_, ?_, ?_⟩, ?_, ?_⟩
  · intro id bytes hfirst later t
    apply serve_icon_of_lookup
    rw [lookup_icons_after, hlookup, hfirst]
    rfl
  · intro id hfirst served
    have huncached : s.inventory.icons.lookup id = none := by
      rw [hlookup, hfirst]
      rfl
    refine ⟨?_, ?_⟩
    · intro bytes hbytes
      have hserved : served = _ := serve_icon_of_supplied huncached hbytes
      refine ⟨congrArg Service.answer hserved, congrArg Service.calls hserved, ?_⟩
      intro later r hr
      exact serve_after_icon_of_supplied huncached hbytes hr
    · intro hnone fallback
      have hserved : served = { fallback with calls := .icon id :: fallback.calls } :=
        serve_icon_of_not_supplied huncached hnone
      refine ⟨hserved, ?_⟩
      rw [hserved]
      exact Inventory.icons_defaultIcon
  · have hcount := count_defaultIcon_callsDuring_add i w start events
    exact (Nat.le_add_right ..).trans hcount.le
  · change (s.inventory.defaultIcon s.host).calls = _
    have hnone : s.inventory.standIn = none ↔ .defaultIcon ∉ start.callsDuring i w events :=
      standIn_after_eq_none_iff rfl
    rw [Inventory.calls_defaultIcon, Inventory.standInsLeft]
    by_cases hasked : .defaultIcon ∈ start.callsDuring i w events
    · rw [if_pos hasked, if_neg (fun h => hnone.mp h hasked)]
      rfl
    · rw [if_neg hasked, if_pos (hnone.mpr hasked)]
      rfl
  · intro r hcall
    obtain ⟨-, hanswer, hkept⟩ := defaultIcon_of_mem_calls hcall
    refine ⟨hanswer, ?_⟩
    intro later t
    have hstandIn : t.inventory.standIn = some (askedStandIn s.host) :=
      standIn_after_of_eq_some hkept
    refine ⟨serve_defaultIcon_of_standIn hstandIn, ?_⟩
    intro id hfirst hnone
    have hevents : start.after i w (events ++ .ask r :: later) = t := after_append
    have huncached : t.inventory.icons.lookup id = none := by
      rw [← hevents, lookup_icons_after_empty, hfirst]
      rfl
    rw [serve_icon_of_not_supplied huncached hnone, serve_defaultIcon_of_standIn hstandIn]
  · intro id text htext
    rw [hlookup] at htext
    obtain ⟨bytes, hfirst, rfl⟩ := Option.map_eq_some_iff.mp htext
    exact ⟨bytes, hfirst, Base64.isStandard_encode bytes, Base64.decode?_encode bytes⟩
  · intro text htext
    obtain ⟨earlier, r, later, hevents, hcall, hasked⟩ := exists_of_standIn_after rfl htext
    obtain ⟨bytes, hbytes, rfl⟩ := Inventory.askedStandIn_eq_some hasked.symm
    exact ⟨earlier, r, later, bytes, hevents, hcall, hbytes, Base64.isStandard_encode bytes,
      Base64.decode?_encode bytes⟩

end Session

end VendorScreen
