import VendorScreen.Host
import VendorScreen.Json.Fields
import VendorScreen.Json.Reader
import VendorScreen.Json.Writer

namespace VendorScreen

/-!
# Package records in JSON

A package record is what a host reports about a package less its permissions. Both are written as
objects with keys in a fixed order; a host's report can also be read, from an object or from the
array of its values.
-/

structure PackageRecord where
  packageName : String
  label : String
  isSystem : Bool
  firstInstallTime : Int
deriving DecidableEq, Repr

namespace PackageRecord

def ofInstalled (p : InstalledPackage) : PackageRecord :=
  ⟨p.packageName, p.label, p.isSystem, p.firstInstallTime⟩

def toJson (r : PackageRecord) : Json :=
  .ofFields [
    ("packageName", .text r.packageName),
    ("label", .text r.label),
    ("isSystem", .bool r.isSystem),
    ("firstInstallTime", .int r.firstInstallTime)]

def listJson (records : List PackageRecord) : Json := .array (records.map toJson)

end PackageRecord

namespace InstalledPackage

def toJson (p : InstalledPackage) : Json :=
  .ofFields [
    ("packageName", .text p.packageName),
    ("label", .text p.label),
    ("isSystem", .bool p.isSystem),
    ("firstInstallTime", .int p.firstInstallTime),
    ("requestedPermissions", .texts p.requestedPermissions)]

/-- Reads a report from the fields of an object. All but the name may be missing. -/
def ofFields? (fields : List (Option String × Json)) : Option InstalledPackage := do
  let packageName ← Json.required? fields "packageName" Json.text?
  let label ← Json.fieldD? fields "label" Json.text? ""
  let isSystem ← Json.fieldD? fields "isSystem" Json.bool? false
  let firstInstallTime ← Json.fieldD? fields "firstInstallTime" Json.int64? 0
  let requestedPermissions ← Json.fieldD? fields "requestedPermissions" Json.texts? []
  return { packageName, label, isSystem, firstInstallTime, requestedPermissions }

/-- Reads a value of an array, or takes the default behind its end. -/
def itemD? {α : Type} (item : Option Json) (read : Json → Option α) (default : α) : Option α :=
  match item with
  | none => some default
  | some value => read value

/-- Reads a report from the values of an array. All but the name may be missing at its end. -/
def ofItems? (items : List Json) : Option InstalledPackage :=
  if 5 < items.length then none
  else do
    let packageName ← items[0]?.bind Json.text?
    let label ← itemD? items[1]? Json.text? ""
    let isSystem ← itemD? items[2]? Json.bool? false
    let firstInstallTime ← itemD? items[3]? Json.int64? 0
    let requestedPermissions ← itemD? items[4]? Json.texts? []
    return { packageName, label, isSystem, firstInstallTime, requestedPermissions }

def ofJson? : Json → Option InstalledPackage
  | .object fields => if Json.keysHaveText fields then ofFields? fields else none
  | .array items => ofItems? items
  | _ => none

/-- Reads a report from its text. -/
def read? (text : String) : Option InstalledPackage := (Json.read? text).bind ofJson?

end InstalledPackage

end VendorScreen
