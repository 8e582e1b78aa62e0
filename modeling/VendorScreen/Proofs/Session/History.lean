import VendorScreen.Proofs.Inventory.Replies
import VendorScreen.Session

namespace VendorScreen

/-!
# What a session remembers

A session is known by the events so far: the host is the one of the last change, and what is kept is
what the host first gave when it was asked.
-/

namespace Request

/-- Whether the packages have to be listed for the request. -/
def listsPackages : Request → Bool
  | packages _ | flaggedPackages | flaggedText => true
  | isFlagged _ | keepFlagged _ | classify _ | icon _ | defaultIcon => false

/-- Whether the request is about the classification of given packages. -/
def isClassification : Request → Bool
  | isFlagged _ | keepFlagged _ | classify _ => true
  | packages _ | flaggedPackages | flaggedText | icon _ | defaultIcon => false

end Request

namespace Session

open Inventory (kept suppliedIcon)

variable {i : Inspector} {w : Waiting} {s : Session} {r : Request} {host : Host}
  {events later : List Event} {id : String}

def lastHost (host : Host) : List Event → Host
  | [] => host
  | .change host :: rest => lastHost host rest
  | .ask _ :: rest => lastHost host rest

/-- What `f` first finds in a request and the host as it is then. -/
def firstAt {α : Type} (f : Request → Host → Option α) (host : Host) : List Event → Option α
  | [] => none
  | .change host :: rest => firstAt f host rest
  | .ask request :: rest => (f request host).or (firstAt f host rest)

/-- The list of packages that the host gives for a request. -/
def listedFor (request : Request) (host : Host) : Option (List InstalledPackage) :=
  if request.listsPackages then host.installed.toOption else none

/-- The icon of the package that the host supplies for a request. -/
def suppliedFor (id : String) (request : Request) (host : Host) : Option ByteArray :=
  if request = .icon id then suppliedIcon host id else none

/-- The events without some of the requests. -/
def without (isLeftOut : Request → Bool) : List Event → List Event
  | [] => []
  | .change host :: rest => .change host :: without isLeftOut rest
  | .ask request :: rest =>
      if isLeftOut request then without isLeftOut rest else .ask request :: without isLeftOut rest

@[simp] theorem after_nil : s.after i w [] = s := rfl

@[simp] theorem after_cons (e : Event) :
    s.after i w (e :: events) = (s.next i w e).after i w events := rfl

theorem after_append : s.after i w (events ++ later) = (s.after i w events).after i w later :=
  List.foldl_append ..

theorem session_serve_of_listsPackages (h : r.listsPackages = true) :
    (s.serve i w r).session = { s with inventory := (s.inventory.list s.host).inventory } := by
  cases r with
  | packages form => rfl
  | flaggedPackages | flaggedText =>
      simp only [serve, flaggedPackages]
      cases (s.inventory.list s.host).value <;> rfl
  | isFlagged | keepFlagged | classify | icon | defaultIcon => simp [Request.listsPackages] at h

theorem session_serve_icon : (s.serve i w (.icon id)).session =
    { s with inventory := (s.inventory.icon s.host id).inventory } := rfl

theorem session_serve_defaultIcon : (s.serve i w .defaultIcon).session =
    { s with inventory := (s.inventory.defaultIcon s.host).inventory } := rfl

theorem session_serve_of_isClassification (h : r.isClassification = true) :
    (s.serve i w r).session = s := by
  cases r with
  | isFlagged | keepFlagged | classify => rfl
  | packages | flaggedPackages | flaggedText | icon | defaultIcon =>
      simp [Request.isClassification] at h

/-- A request is about packages to list, about classifications, or about icons. -/
theorem request_cases (r : Request) :
    r.listsPackages = true ∨ r.isClassification = true ∨ (∃ id, r = .icon id) ∨
      r = .defaultIcon := by
  cases r <;> simp [Request.listsPackages, Request.isClassification]

theorem not_listsPackages_of_isClassification (h : r.isClassification = true) :
    r.listsPackages = false := by
  cases r <;> simp_all [Request.listsPackages, Request.isClassification]

theorem host_serve : (s.serve i w r).session.host = s.host := by
  rcases request_cases r with h | h | ⟨id, rfl⟩ | rfl
  · rw [session_serve_of_listsPackages h]
  · rw [session_serve_of_isClassification h]
  · rfl
  · rfl

theorem host_after : (s.after i w events).host = lastHost s.host events := by
  induction events generalizing s with
  | nil => rfl
  | cons e rest ih =>
      cases e with
      | change host => exact ih
      | ask request =>
          rw [after_cons, ih]
          exact congrArg (lastHost · rest) host_serve

theorem hostIdentifier_serve :
    (s.serve i w r).session.inventory.hostIdentifier = s.inventory.hostIdentifier := by
  rcases request_cases r with h | h | ⟨id, rfl⟩ | rfl
  · rw [session_serve_of_listsPackages h, Inventory.hostIdentifier_list]
  · rw [session_serve_of_isClassification h]
  · exact Inventory.hostIdentifier_icon
  · exact Inventory.hostIdentifier_defaultIcon

theorem packages_serve : (s.serve i w r).session.inventory.packages =
    s.inventory.packages.or ((listedFor r s.host).map (kept s.inventory.hostIdentifier)) := by
  unfold listedFor
  rcases request_cases r with h | h | ⟨id, rfl⟩ | rfl
  · rw [session_serve_of_listsPackages h, if_pos h, Inventory.packages_list]
  · rw [session_serve_of_isClassification h, not_listsPackages_of_isClassification h]
    simp
  · rw [session_serve_icon]
    simp [Request.listsPackages]
  · rw [session_serve_defaultIcon]
    simp [Request.listsPackages]

theorem lookup_icons_serve (id : String) : (s.serve i w r).session.inventory.icons.lookup id =
    (s.inventory.icons.lookup id).or ((suppliedFor id r s.host).map Base64.encode) := by
  unfold suppliedFor
  rcases request_cases r with h | h | ⟨id', rfl⟩ | rfl
  · have hne : r ≠ .icon id := by
      rintro rfl
      simp [Request.listsPackages] at h
    rw [session_serve_of_listsPackages h, if_neg hne]
    simp
  · have hne : r ≠ .icon id := by
      rintro rfl
      simp [Request.isClassification] at h
    rw [session_serve_of_isClassification h, if_neg hne]
    simp
  · rw [session_serve_icon, Inventory.lookup_icons_icon]
    by_cases hid : id = id'
    · subst hid
      rw [if_pos rfl, if_pos rfl]
    · have hne : Request.icon id' ≠ .icon id := by simpa [eq_comm] using hid
      rw [if_neg hid, if_neg hne]
      rfl
  · rw [session_serve_defaultIcon]
    simp

theorem lookup_icons_serve_of_eq_some {text : String}
    (h : s.inventory.icons.lookup id = some text) :
    (s.serve i w r).session.inventory.icons.lookup id = some text := by
  rw [lookup_icons_serve, h, Option.some_or]

/-- The list that is kept is that of the first time that the host gave one. -/
theorem packages_after (events : List Event) : (s.after i w events).inventory.packages =
    s.inventory.packages.or
      ((firstAt listedFor s.host events).map (kept s.inventory.hostIdentifier)) := by
  induction events generalizing s with
  | nil => simp [firstAt]
  | cons e rest ih =>
      cases e with
      | change host => exact ih
      | ask request =>
          rw [after_cons, ih]
          simp only [next, packages_serve, hostIdentifier_serve, host_serve, firstAt,
            Option.or_assoc, Option.map_or]

/-- The icon that is kept for a package is the first one that the host supplied for it. -/
theorem lookup_icons_after (id : String) : (s.after i w events).inventory.icons.lookup id =
    (s.inventory.icons.lookup id).or
      ((firstAt (suppliedFor id) s.host events).map Base64.encode) := by
  induction events generalizing s with
  | nil => simp [firstAt]
  | cons e rest ih =>
      cases e with
      | change host => exact ih
      | ask request =>
          rw [after_cons, ih]
          simp only [next, lookup_icons_serve, host_serve, firstAt, Option.or_assoc, Option.map_or]

theorem lastHost_without (isLeftOut : Request → Bool) (host : Host) (events : List Event) :
    lastHost host (without isLeftOut events) = lastHost host events := by
  induction events generalizing host with
  | nil => rfl
  | cons e rest ih =>
      cases e with
      | change host' => exact ih host'
      | ask request =>
          rw [without]
          split
          · exact ih host
          · exact ih host

theorem firstAt_without {α : Type} {f : Request → Host → Option α} {isLeftOut : Request → Bool}
    (h : ∀ r host, isLeftOut r = true → f r host = none) (host : Host) (events : List Event) :
    firstAt f host (without isLeftOut events) = firstAt f host events := by
  induction events generalizing host with
  | nil => rfl
  | cons e rest ih =>
      cases e with
      | change host' => exact ih host'
      | ask request =>
          rw [without, firstAt]
          split
          · rename_i hout
            rw [h request host hout, Option.none_or, ih]
          · rw [firstAt, ih]

end Session

end VendorScreen
