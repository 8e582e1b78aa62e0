import Mathlib
import VendorScreen.Inventory

namespace VendorScreen.Inventory

/-!
# What the inventory keeps

A reply comes from what is kept, or else from the host. A list of packages is kept when the host
gave one, an icon when the host had one, and the default icon whatever came of asking for it.
-/

/-- The package is that of the application that asks, which may not use the network and is not the
platform. -/
def LeavesOut (hostIdentifier : Option String) (p : InstalledPackage) : Prop :=
  hostIdentifier = some p.packageName ∧ p.packageName ≠ platformPackage ∧
    internetPermission ∉ p.requestedPermissions

instance (hostIdentifier : Option String) (p : InstalledPackage) :
    Decidable (LeavesOut hostIdentifier p) := inferInstanceAs (Decidable (_ ∧ _ ∧ _))

/-- The records that are kept of a list of packages. -/
def kept (hostIdentifier : Option String) (installed : List InstalledPackage) :
    List PackageRecord :=
  (installed.filter fun p => ¬ LeavesOut hostIdentifier p).map PackageRecord.ofInstalled

theorem includes_eq (hostIdentifier : Option String) (p : InstalledPackage) :
    includes hostIdentifier p = decide (¬ LeavesOut hostIdentifier p) := by
  rw [Bool.eq_iff_iff, decide_eq_true_iff]
  simp only [includes, LeavesOut, InstalledPackage.requests, Bool.or_eq_true, bne_iff_ne,
    List.contains_eq_mem, decide_eq_true_eq]
  tauto

theorem map_ofInstalled_filter_includes (hostIdentifier : Option String)
    (installed : List InstalledPackage) :
    (installed.filter (includes hostIdentifier)).map PackageRecord.ofInstalled =
      kept hostIdentifier installed := by
  rw [kept, show includes hostIdentifier = _ from funext (includes_eq hostIdentifier)]

section map

variable {ε α β : Type} {x : Except ε α} {f : α → β}

theorem map_eq_ok_iff {b : β} : x.map f = .ok b ↔ ∃ a, x = .ok a ∧ f a = b := by
  cases x <;> simp [Except.map]

theorem map_eq_error_iff {fault : ε} : x.map f = .error fault ↔ x = .error fault := by
  cases x <;> simp [Except.map]

end map

variable {host : Host} {inv : Inventory} {id : String}

theorem list_of_packages {records : List PackageRecord} (h : inv.packages = some records) :
    inv.list host = ⟨.ok records, inv, []⟩ := by
  simp only [list, h]

theorem list_of_error {fault : HostFault} (h : inv.packages = none)
    (hhost : host.installed = .error fault) :
    inv.list host = ⟨.error fault, inv, [.inventory]⟩ := by
  simp only [list, h, hhost]

theorem list_of_ok {installed : List InstalledPackage} (h : inv.packages = none)
    (hhost : host.installed = .ok installed) :
    inv.list host = ⟨.ok (kept inv.hostIdentifier installed),
      { inv with packages := some (kept inv.hostIdentifier installed) }, [.inventory]⟩ := by
  simp only [list, h, hhost, map_ofInstalled_filter_includes]

/-- When no list is kept, the host's answer is passed on, and its list is kept. -/
theorem list_of_none (h : inv.packages = none) :
    inv.list host = ⟨host.installed.map (kept inv.hostIdentifier),
      { inv with packages := host.installed.toOption.map (kept inv.hostIdentifier) },
      [.inventory]⟩ := by
  cases hhost : host.installed with
  | error fault =>
      rw [list_of_error h hhost]
      cases inv
      cases h
      rfl
  | ok installed => exact list_of_ok h hhost

/-- What comes of asking the host for the default icon. A failure counts as no icon. -/
def askedStandIn (host : Host) : Option String :=
  match host.defaultIcon with
  | .ok icon => icon.map Base64.encode
  | .error _ => none

theorem defaultIcon_of_standIn {icon : Option String} (h : inv.standIn = some icon) :
    inv.defaultIcon host = ⟨icon, inv, []⟩ := by
  simp only [defaultIcon, h]

theorem defaultIcon_of_none (h : inv.standIn = none) :
    inv.defaultIcon host =
      ⟨askedStandIn host, { inv with standIn := some (askedStandIn host) }, [.defaultIcon]⟩ := by
  cases hicon : host.defaultIcon <;> simp only [defaultIcon, askedStandIn, h, hicon]

theorem icon_of_lookup {text : String} (h : inv.icons.lookup id = some text) :
    inv.icon host id = ⟨some text, inv, []⟩ := by
  simp only [icon, h]

/-- The icon that the host supplies for a package. -/
def suppliedIcon (host : Host) (id : String) : Option ByteArray :=
  match host.icon id with
  | .ok icon => icon
  | .error _ => none

theorem icon_of_supplied {bytes : ByteArray} (h : inv.icons.lookup id = none)
    (hhost : suppliedIcon host id = some bytes) :
    inv.icon host id = ⟨some (Base64.encode bytes),
      { inv with icons := (id, Base64.encode bytes) :: inv.icons }, [.icon id]⟩ := by
  unfold suppliedIcon at hhost
  cases hicon : host.icon id with
  | error fault => simp [hicon] at hhost
  | ok icon =>
      rw [hicon] at hhost
      subst hhost
      simp only [Inventory.icon, h, hicon]

theorem icon_of_not_supplied (h : inv.icons.lookup id = none)
    (hhost : suppliedIcon host id = none) :
    inv.icon host id =
      { inv.defaultIcon host with calls := .icon id :: (inv.defaultIcon host).calls } := by
  unfold suppliedIcon at hhost
  cases hicon : host.icon id with
  | error fault => simp only [Inventory.icon, h, hicon]
  | ok icon =>
      rw [hicon] at hhost
      subst hhost
      simp only [Inventory.icon, h, hicon]

/-! What each question leaves as it is. -/

@[simp] theorem hostIdentifier_list :
    (inv.list host).inventory.hostIdentifier = inv.hostIdentifier := by
  unfold list
  split
  · rfl
  · split <;> rfl

@[simp] theorem icons_list : (inv.list host).inventory.icons = inv.icons := by
  unfold list
  split
  · rfl
  · split <;> rfl

@[simp] theorem standIn_list : (inv.list host).inventory.standIn = inv.standIn := by
  unfold list
  split
  · rfl
  · split <;> rfl

theorem packages_list : (inv.list host).inventory.packages =
    inv.packages.or (host.installed.toOption.map (kept inv.hostIdentifier)) := by
  cases h : inv.packages with
  | some records => rw [list_of_packages h, h, Option.some_or]
  | none =>
      cases hhost : host.installed with
      | error fault =>
          rw [list_of_error h hhost, h]
          rfl
      | ok installed =>
          rw [list_of_ok h hhost]
          rfl

/-- What is answered is what is kept, or else the fault of the host. -/
theorem list_cases (host : Host) (inv : Inventory) :
    (∃ records, (inv.list host).inventory.packages = some records ∧
      (inv.list host).value = .ok records) ∨
    (∃ fault, (inv.list host).inventory.packages = none ∧ host.installed = .error fault ∧
      (inv.list host).value = .error fault) := by
  cases h : inv.packages with
  | some records => exact .inl ⟨records, by rw [list_of_packages h, h], by rw [list_of_packages h]⟩
  | none =>
      cases hhost : host.installed with
      | error fault =>
          rw [list_of_error h hhost]
          exact .inr ⟨fault, h, rfl, rfl⟩
      | ok installed =>
          rw [list_of_ok h hhost]
          exact .inl ⟨_, rfl, rfl⟩

theorem value_list_list :
    ((inv.list host).inventory.list host).value = (inv.list host).value := by
  rcases list_cases host inv with ⟨records, hkept, hvalue⟩ | ⟨fault, hnone, hfault, hvalue⟩
  · rw [list_of_packages hkept, hvalue]
  · rw [list_of_error hnone hfault, hvalue]

/-- Callers who are served in turn by the same host all get the same answer. -/
theorem value_listTimes (callers : ℕ) :
    (inv.listTimes host callers).value = List.replicate callers (inv.list host).value := by
  induction callers generalizing inv with
  | zero => rfl
  | succ callers ih => rw [listTimes, ih, value_list_list, List.replicate_succ]

/-- Only what stands in for a missing icon changes when the default icon is asked for. -/
theorem inventory_defaultIcon : (inv.defaultIcon host).inventory =
    { inv with standIn := (inv.defaultIcon host).inventory.standIn } := by
  cases h : inv.standIn with
  | some icon => rw [defaultIcon_of_standIn h]
  | none => rw [defaultIcon_of_none h]

@[simp] theorem hostIdentifier_defaultIcon :
    (inv.defaultIcon host).inventory.hostIdentifier = inv.hostIdentifier := by
  rw [inventory_defaultIcon]

@[simp] theorem packages_defaultIcon :
    (inv.defaultIcon host).inventory.packages = inv.packages := by
  rw [inventory_defaultIcon]

@[simp] theorem icons_defaultIcon : (inv.defaultIcon host).inventory.icons = inv.icons := by
  rw [inventory_defaultIcon]

/-- The ways in which an icon is found: it has been kept, it is supplied, or the default icon stands
in for it. -/
theorem icon_cases (host : Host) (inv : Inventory) (id : String) :
    (∃ text, inv.icons.lookup id = some text ∧ inv.icon host id = ⟨some text, inv, []⟩) ∨
    (∃ bytes, inv.icons.lookup id = none ∧ suppliedIcon host id = some bytes ∧
      inv.icon host id = ⟨some (Base64.encode bytes),
        { inv with icons := (id, Base64.encode bytes) :: inv.icons }, [.icon id]⟩) ∨
    (inv.icons.lookup id = none ∧ suppliedIcon host id = none ∧ inv.icon host id =
      { inv.defaultIcon host with calls := .icon id :: (inv.defaultIcon host).calls }) := by
  cases hcached : inv.icons.lookup id with
  | some text => exact .inl ⟨text, rfl, icon_of_lookup hcached⟩
  | none =>
      cases hhost : suppliedIcon host id with
      | some bytes => exact .inr (.inl ⟨bytes, rfl, rfl, icon_of_supplied hcached hhost⟩)
      | none => exact .inr (.inr ⟨rfl, rfl, icon_of_not_supplied hcached hhost⟩)

@[simp] theorem hostIdentifier_icon :
    (inv.icon host id).inventory.hostIdentifier = inv.hostIdentifier := by
  rcases icon_cases host inv id with ⟨_, _, h⟩ | ⟨_, _, _, h⟩ | ⟨_, _, h⟩ <;> simp [h]

@[simp] theorem packages_icon : (inv.icon host id).inventory.packages = inv.packages := by
  rcases icon_cases host inv id with ⟨_, _, h⟩ | ⟨_, _, _, h⟩ | ⟨_, _, h⟩ <;> simp [h]

/-- An icon is kept for the package that it was asked for, the first time that it is supplied. -/
theorem lookup_icons_icon (id' : String) : (inv.icon host id).inventory.icons.lookup id' =
    (inv.icons.lookup id').or
      (if id' = id then (suppliedIcon host id).map Base64.encode else none) := by
  rcases icon_cases host inv id with ⟨text, hcached, h⟩ | ⟨bytes, hcached, hhost, h⟩ |
    ⟨hcached, hhost, h⟩
  · rw [h]
    by_cases hid : id' = id
    · subst hid
      rw [hcached, Option.some_or]
    · rw [if_neg hid, Option.or_none]
  · rw [h, List.lookup_cons]
    by_cases hid : id' = id
    · subst hid
      rw [if_pos rfl, hcached, hhost]
      simp
    · rw [if_neg hid, Option.or_none, beq_false_of_ne hid]
  · rw [h, hhost]
    simp

end VendorScreen.Inventory
