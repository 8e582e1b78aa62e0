import VendorScreen.Json.Fields
import VendorScreen.Json.Reader
import VendorScreen.PackageRecord

namespace VendorScreen

/-!
# Manifests

A manifest lists packages in JSON, each as the platform would report it, with its components and the
paths of its archive and its icon.
-/

structure ManifestPackage where
  installed : InstalledPackage
  services : List String
  activities : List String
  receivers : List String
  providers : List String
  archive : Option String
  icon : Option String
deriving DecidableEq, Repr

namespace ManifestPackage

def id (p : ManifestPackage) : String := p.installed.packageName

def ofFields? (fields : List (Option String × Json)) : Option ManifestPackage := do
  let installed ← InstalledPackage.ofFields? fields
  let services ← Json.fieldD? fields "services" Json.texts? []
  let activities ← Json.fieldD? fields "activities" Json.texts? []
  let receivers ← Json.fieldD? fields "receivers" Json.texts? []
  let providers ← Json.fieldD? fields "providers" Json.texts? []
  let archive ← Json.fieldD? fields "archive" Json.optionalText? none
  let icon ← Json.fieldD? fields "icon" Json.optionalText? none
  return { installed, services, activities, receivers, providers, archive, icon }

/-- How deep a package may nest. Two containers stand around it. -/
def maxDepth : Nat := 125

/-- Reads a package. All of it has to be representable, also what is not looked at. -/
def ofJson? : Json → Option ManifestPackage
  | .object fields =>
      if Json.depth (.object fields) ≤ maxDepth && Json.isRepresentable (.object fields) then
        ofFields? fields
      else none
  | _ => none

end ManifestPackage

structure Manifest where
  packages : List ManifestPackage
  defaultIcon : Option String
deriving DecidableEq, Repr

namespace Manifest

def packages? : Json → Option (List ManifestPackage)
  | .array items => items.mapM ManifestPackage.ofJson?
  | _ => none

/-- Reads a manifest from an object, or from the array of its two values. -/
def ofJson? : Json → Option Manifest
  | .object fields =>
      if Json.keysHaveText fields then do
        let packages ← Json.required? fields "packages" packages?
        let defaultIcon ← Json.fieldD? fields "defaultIcon" Json.optionalText? none
        return { packages, defaultIcon }
      else none
  | .array [packages, defaultIcon] => do
      return ⟨← packages? packages, ← Json.optionalText? defaultIcon⟩
  | _ => none

/-- Reads a manifest from its text. -/
def read? (text : String) : Option Manifest := (Json.read? text).bind ofJson?

end Manifest

end VendorScreen
