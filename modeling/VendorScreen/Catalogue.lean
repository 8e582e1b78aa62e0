import VendorScreen.Files.ArchiveSearch
import VendorScreen.Host
import VendorScreen.Manifest
import VendorScreen.Text.Quoted

namespace VendorScreen

open Files (FileFault Tree)

/-!
# A host on files

A catalogue holds the packages of a manifest, or one for each archive in a directory. Its answers
come from the files that its paths lead to.
-/

inductive CatalogueFault where
  | unreadable (path : String)
  | malformed (path : String)
  | noDirectory (path : String)
  | badIdentifier (id : String)
  | repeatedIdentifier (id : String)
deriving DecidableEq, Repr

def CatalogueFault.message : CatalogueFault → String
  | unreadable path => "Failed to read manifest: " ++ path
  | malformed path => "Failed to parse manifest: " ++ path
  | noDirectory path => Tree.searchFailure path
  | badIdentifier id => "Invalid package identifier in manifest: " ++ Text.quote id
  | repeatedIdentifier id => "Duplicate package identifier in manifest: " ++ id

structure Catalogue where
  packages : List ManifestPackage
  defaultIcon : Option String
deriving DecidableEq, Repr

namespace Catalogue

/-- An identifier can name a file in a directory. -/
def isIdentifier (id : String) : Bool :=
  !id.isEmpty && !id.toList.contains '/' && !id.toList.contains '\\'

/-- The package with its paths as they are seen from `base`. -/
def located (base : String) (p : ManifestPackage) : ManifestPackage :=
  { p with
    archive := p.archive.map (Files.Path.join base)
    icon := p.icon.map (Files.Path.join base) }

/-- Takes packages in, after those with the given identifiers. -/
def take (base : String) (taken : List String) :
    List ManifestPackage → Except CatalogueFault (List ManifestPackage)
  | [] => .ok []
  | p :: rest =>
      if !isIdentifier p.id then .error (.badIdentifier p.id)
      else if taken.contains p.id then .error (.repeatedIdentifier p.id)
      else (take base (p.id :: taken) rest).map (located base p :: ·)

/-- The catalogue of packages whose paths start at `base`. -/
def ofPackages (base : String) (packages : List ManifestPackage) :
    Except CatalogueFault Catalogue :=
  (take base [] packages).map fun packages ↦ ⟨packages, none⟩

/-- The catalogue of a manifest whose paths start at `base`. -/
def ofManifest (base : String) (m : Manifest) : Except CatalogueFault Catalogue :=
  (ofPackages base m.packages).map fun c ↦
    { c with defaultIcon := m.defaultIcon.map (Files.Path.join base) }

/-- Reads the manifest at a path. -/
def load (files : Tree) (path : String) : Except CatalogueFault Catalogue :=
  match files.read path with
  | .error _ => .error (.unreadable path)
  | .ok bytes =>
      match String.fromUTF8? bytes with
      | none => .error (.unreadable path)
      | some text =>
          match Manifest.read? text with
          | none => .error (.malformed path)
          | some m => ofManifest ((Files.Path.parent? path).getD ".") m

/-- When the file was modified, in 1970 if it was earlier, and at the last millisecond of 64 bits if
it was later than that. -/
def installTime (files : Tree) (path : String) : Int :=
  min (max 0 ((files.modified? path).getD 0)) (Json.int64Limit - 1)

/-- The package that an archive stands for, unless its name gives no identifier. -/
def ofArchive? (files : Tree) (path : String) : Option ManifestPackage :=
  (Files.identifierOf? path).map fun id ↦
    { installed :=
        { packageName := id, label := id, isSystem := false
          firstInstallTime := installTime files path, requestedPermissions := [] }
      services := [], activities := [], receivers := [], providers := []
      archive := some path, icon := none }

/-- The catalogue of the archives in a directory. -/
def ofDirectory (files : Tree) (directory : String) : Except CatalogueFault Catalogue :=
  match files.archivesIn? directory with
  | none => .error (.noDirectory directory)
  | some paths => ofPackages "" (paths.filterMap (ofArchive? files))

def find? (c : Catalogue) (id : String) : Option ManifestPackage :=
  c.packages.find? fun p ↦ p.id = id

/-- A name that starts with a dot continues the identifier of its package. -/
def qualified (id className : String) : String :=
  if className.toList.head? = some '.' then id ++ className else className

def componentsOf (p : ManifestPackage) : List Component :=
  (p.services ++ p.activities ++ p.receivers ++ p.providers).map fun className ↦
    ⟨p.id, qualified p.id className⟩

/-- What an icon's path leads to. A missing file is no icon. -/
def readIcon (files : Tree) : Option String → Except HostFault (Option ByteArray)
  | none => .ok none
  | some path =>
      match files.read path with
      | .ok bytes => .ok (some bytes)
      | .error .missing => .ok none
      | .error fault => .error (.io fault.message)

def readArchive (files : Tree) (p : ManifestPackage) : Except HostFault ByteArray :=
  match p.archive with
  | none => .error (.notFound ("archive of " ++ p.id))
  | some path =>
      match files.read path with
      | .ok bytes => .ok bytes
      | .error _ => .error (.notFound path)

/-- An answer about a package of the catalogue. -/
def answer {α : Type} (c : Catalogue) (id : String) (value : ManifestPackage → Except HostFault α) :
    Except HostFault α :=
  match c.find? id with
  | none => .error (.packageNotFound id)
  | some p => value p

def host (c : Catalogue) (files : Tree) : Host where
  installed := .ok (c.packages.map ManifestPackage.installed)
  components id := c.answer id fun p ↦ .ok (componentsOf p)
  archive id := c.answer id (readArchive files)
  icon id := c.answer id fun p ↦ readIcon files p.icon
  defaultIcon := readIcon files c.defaultIcon

end Catalogue

end VendorScreen
