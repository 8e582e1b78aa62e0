import VendorScreen.Base64
import VendorScreen.Host
import VendorScreen.PackageRecord

namespace VendorScreen

/-!
# The inventory

The list of packages is taken from the host once and kept; a failure is not kept. An icon is kept
when the host had one. The icon that stands in for a missing one is asked for once, and whatever
comes of it is kept, a failure included.
-/

structure Inventory where
  /-- The identifier of the application that asks. -/
  hostIdentifier : Option String
  packages : Option (List PackageRecord)
  icons : List (String × String)
  /-- The outcome of asking for the default icon, once that has happened. -/
  standIn : Option (Option String)
deriving DecidableEq, Repr

def internetPermission : String := "android.permission.INTERNET"

/-- The identifier of the platform itself. -/
def platformPackage : String := "android"

namespace Inventory

def empty (hostIdentifier : Option String) : Inventory := ⟨hostIdentifier, none, [], none⟩

/-- The application that asks is left out, unless it may use the network or is the platform. -/
def includes (hostIdentifier : Option String) (p : InstalledPackage) : Bool :=
  hostIdentifier != some p.packageName || p.requests internetPermission
    || p.packageName = platformPackage

/-- An answer, the inventory after it, and the questions put to the host for it. -/
structure Reply (α : Type) where
  value : α
  inventory : Inventory
  calls : List Call

/-- The packages of the inventory. -/
def list (host : Host) (inv : Inventory) : Reply (Except HostFault (List PackageRecord)) :=
  match inv.packages with
  | some records => ⟨.ok records, inv, []⟩
  | none =>
      match host.installed with
      | .error fault => ⟨.error fault, inv, [.inventory]⟩
      | .ok installed =>
          let included := installed.filter (includes inv.hostIdentifier)
          let records := included.map PackageRecord.ofInstalled
          ⟨.ok records, { inv with packages := some records }, [.inventory]⟩

/-- The answers to so many callers that ask for the packages at once; they are served in turn. -/
def listTimes (host : Host) (inv : Inventory) :
    Nat → Reply (List (Except HostFault (List PackageRecord)))
  | 0 => ⟨[], inv, []⟩
  | callers + 1 =>
      let first := inv.list host
      let others := first.inventory.listTimes host callers
      ⟨first.value :: others.value, others.inventory, first.calls ++ others.calls⟩

def identifiers (records : List PackageRecord) : List String :=
  records.map PackageRecord.packageName

/-- The default icon. -/
def defaultIcon (host : Host) (inv : Inventory) : Reply (Option String) :=
  match inv.standIn with
  | some icon => ⟨icon, inv, []⟩
  | none =>
      let icon := match host.defaultIcon with
        | .ok icon => icon.map Base64.encode
        | .error _ => none
      ⟨icon, { inv with standIn := some icon }, [.defaultIcon]⟩

/-- The icon of a package, or the default icon. -/
def icon (host : Host) (inv : Inventory) (id : String) : Reply (Option String) :=
  match inv.icons.lookup id with
  | some icon => ⟨some icon, inv, []⟩
  | none =>
      match host.icon id with
      | .ok (some bytes) =>
          let icon := Base64.encode bytes
          ⟨some icon, { inv with icons := (id, icon) :: inv.icons }, [.icon id]⟩
      | _ =>
          let fallback := inv.defaultIcon host
          { fallback with calls := .icon id :: fallback.calls }

end Inventory

/-- What is said when the packages cannot be listed. -/
def inventoryFailure : String := "Failed to enumerate installed packages"

/-- The causes of a failure to list the packages, the outermost first. A failed operation of the
system is named once as the host's fault and once as itself. -/
def inventoryFailureChain (fault : HostFault) : List String :=
  match fault with
  | .io reason => [inventoryFailure, fault.message, reason]
  | _ => [inventoryFailure, fault.message]

end VendorScreen
