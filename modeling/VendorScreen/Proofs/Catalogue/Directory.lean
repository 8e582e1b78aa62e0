import VendorScreen.Proofs.Catalogue.Register
import VendorScreen.Proofs.Files.ArchiveSearch

namespace VendorScreen

open Files (Tree)

/-!
# Archives as packages

Each archive in a directory stands for a package, under its name less the extension. Archives whose
names give no usable identifier are passed over, so nothing but a repeated name can stand against the
catalogue.
-/

namespace Files

/-- The name of a file up to its last dot, empty if the path names nothing. -/
def stemOf (path : String) : String := (Path.stem? path).getD ""

end Files

namespace Catalogue

open Files (stemOf)

/-- The package that stands for the archive at a path with a usable name. -/
def packageOf (files : Tree) (path : String) : ManifestPackage :=
  { installed :=
      { packageName := stemOf path, label := stemOf path, isSystem := false
        firstInstallTime := installTime files path, requestedPermissions := [] }
    services := [], activities := [], receivers := [], providers := []
    archive := some path, icon := none }

/-- The paths with names that give usable identifiers. -/
def usable (paths : List String) : List String := paths.filter fun path => IsFileName (stemOf path)

/-- What the host says about the packages that stand for the archives at some paths. -/
structure Presents (files : Tree) (paths : List String) (host : Host) : Prop where
  installed : ∃ records, host.installed = .ok records ∧ List.Forall₂ (fun path record =>
    ∃ bytes modified, files.find path = .ok (.file bytes modified) ∧
      record = ⟨stemOf path, stemOf path, false, min (max 0 modified) (2 ^ 63 - 1), []⟩)
    paths records
  archive : ∀ path ∈ paths, ∃ bytes modified, files.find path = .ok (.file bytes modified) ∧
    host.archive (stemOf path) = .ok bytes
  components : ∀ path ∈ paths, host.components (stemOf path) = .ok []
  icon : ∀ path ∈ paths, host.icon (stemOf path) = .ok none
  unlisted : ∀ id ∉ paths.map stemOf,
    host.components id = .error (.packageNotFound id) ∧
    host.archive id = .error (.packageNotFound id) ∧
    host.icon id = .error (.packageNotFound id)

variable {files : Tree} {directory : String} {paths : List String} {c : Catalogue}

theorem located_packageOf (files : Tree) (path : String) :
    located "" (packageOf files path) = packageOf files path := by
  simp [located, packageOf]

/-- The name of an archive and the identifier of a package are put to the same test. -/
theorem identifierOf?_eq (path : String) : Files.identifierOf? path =
    if IsFileName (stemOf path) then some (stemOf path) else none := by
  rw [Files.identifierOf?, stemOf]
  cases Files.Path.stem? path with
  | none => rfl
  | some stem =>
      change (if isIdentifier stem = true then some stem else none) = _
      simp only [isIdentifier_iff, Option.getD_some]

theorem filterMap_ofArchive? (files : Tree) (paths : List String) :
    paths.filterMap (ofArchive? files) = (usable paths).map (packageOf files) := by
  induction paths with
  | nil => rfl
  | cons path paths ih =>
      by_cases hname : IsFileName (stemOf path)
      · have hpackage : ofArchive? files path = some (packageOf files path) := by
          rw [ofArchive?, identifierOf?_eq, if_pos hname]
          rfl
        have husable : usable (path :: paths) = path :: usable paths :=
          List.filter_cons_of_pos (decide_eq_true hname)
        rw [List.filterMap_cons_some hpackage, ih, husable, List.map_cons]
      · have hpackage : ofArchive? files path = none := by
          rw [ofArchive?, identifierOf?_eq, if_neg hname]
          rfl
        have husable : usable (path :: paths) = usable paths :=
          List.filter_cons_of_neg (by simpa using hname)
        rw [List.filterMap_cons_none hpackage, ih, husable]

theorem ofDirectory_eq (h : files.archivesIn? directory = some paths) :
    ofDirectory files directory = ofPackages "" ((usable paths).map (packageOf files)) := by
  rw [ofDirectory, h, ← filterMap_ofArchive?]

theorem map_id_packageOf (files : Tree) (paths : List String) :
    (paths.map (packageOf files)).map ManifestPackage.id = paths.map stemOf := by
  rw [List.map_map]
  rfl

theorem isFileName_of_mem_usable {path : String} (h : path ∈ usable paths) :
    IsFileName (stemOf path) := by
  simpa using (List.mem_filter.mp h).2

/-- All paths up to the one at a cut have usable names. -/
theorem isFileName_of_usable_eq {before after : List String} {path : String}
    (h : usable paths = before ++ path :: after) :
    (∀ other ∈ before, IsFileName (stemOf other)) ∧ IsFileName (stemOf path) := by
  constructor
  · intro other hother
    apply isFileName_of_mem_usable
    exact h ▸ List.mem_append_left _ hother
  · apply isFileName_of_mem_usable
    rw [h]
    simp

theorem isSound_packages_iff (files : Tree) (h : ∀ path ∈ paths, IsFileName (stemOf path)) :
    IsSound (paths.map (packageOf files)) ↔ (paths.map stemOf).Nodup := by
  constructor
  · intro hsound
    exact map_id_packageOf files paths ▸ hsound.nodup
  · intro hnodup
    refine ⟨?_, (map_id_packageOf files paths).symm ▸ hnodup⟩
    intro p hp
    obtain ⟨path, hpath, rfl⟩ := List.mem_map.mp hp
    exact h path hpath

/-- All that stands against a catalogue of archives is a name that repeats an earlier one. -/
theorem ofDirectory_eq_error_iff {fault : CatalogueFault}
    (h : files.archivesIn? directory = some paths) :
    ofDirectory files directory = .error fault ↔ ∃ before path after,
      usable paths = before ++ path :: after ∧ (before.map stemOf).Nodup ∧
        stemOf path ∈ before.map stemOf ∧ fault = .repeatedIdentifier (stemOf path) := by
  rw [ofDirectory_eq h, ofPackages_eq_error_iff]
  constructor
  · rintro ⟨before, p, after, hpackages, hsound, hoffends, rfl⟩
    obtain ⟨front, back, hpaths, rfl, hback⟩ := List.map_eq_append_iff.mp hpackages
    obtain ⟨path, rest, rfl, rfl, rfl⟩ := List.map_eq_cons_iff.mp hback
    obtain ⟨hfront, hname⟩ := isFileName_of_usable_eq hpaths
    refine ⟨front, path, rest, hpaths, (isSound_packages_iff files hfront).mp hsound, ?_, ?_⟩
    · exact map_id_packageOf files front ▸ hoffends.resolve_left (not_not.mpr hname)
    · exact if_pos hname
  · rintro ⟨before, path, after, hpaths, hnodup, hrepeated, rfl⟩
    obtain ⟨hbefore, hname⟩ := isFileName_of_usable_eq hpaths
    refine ⟨before.map (packageOf files), packageOf files path, after.map (packageOf files), ?_,
      (isSound_packages_iff files hbefore).mpr hnodup, .inr ?_, ?_⟩
    · rw [hpaths, List.map_append, List.map_cons]
    · rw [map_id_packageOf]
      exact hrepeated
    · exact (if_pos hname).symm

theorem ofDirectory_eq_ok (h : files.archivesIn? directory = some paths)
    (hnodup : ((usable paths).map stemOf).Nodup) :
    ofDirectory files directory = .ok ⟨(usable paths).map (packageOf files), none⟩ := by
  have hsound := (isSound_packages_iff files fun _ => isFileName_of_mem_usable).mpr hnodup
  obtain ⟨-, -, -, hok⟩ := exists_ofPackages_of_isSound "" hsound
  rw [ofDirectory_eq h, hok, List.map_map]
  congr 2
  exact List.map_congr_left fun path _ => located_packageOf files path

theorem presents_host (hfiles : ∀ path ∈ paths, ∃ bytes modified,
      files.find path = .ok (.file bytes modified))
    (hnodup : (paths.map stemOf).Nodup) :
    Presents files paths (host ⟨paths.map (packageOf files), none⟩ files) := by
  have hdistinct : IsDistinct ⟨paths.map (packageOf files), none⟩ := by
    rw [IsDistinct, map_id_packageOf]
    exact hnodup
  have hanswer {α : Type} (value : ManifestPackage → Except HostFault α) (path : String)
      (hpath : path ∈ paths) : answer ⟨paths.map (packageOf files), none⟩ (stemOf path) value =
        value (packageOf files path) :=
    hdistinct.answer_eq (List.mem_map_of_mem hpath) value
  constructor
  · refine ⟨_, rfl, ?_⟩
    rw [List.map_map, List.forall₂_map_right_iff, List.forall₂_same]
    intro path hpath
    obtain ⟨bytes, modified, hfind⟩ := hfiles path hpath
    have htime : installTime files path = min (max 0 modified) (2 ^ 63 - 1) := by
      simp [installTime, Tree.modified?, hfind, Json.int64Limit]
    refine ⟨bytes, modified, hfind, ?_⟩
    rw [← htime]
    rfl
  · intro path hpath
    obtain ⟨bytes, modified, hfind⟩ := hfiles path hpath
    refine ⟨bytes, modified, hfind, (hanswer _ path hpath).trans ?_⟩
    simp [readArchive, packageOf, Tree.read, hfind]
  · exact fun path hpath => hanswer _ path hpath
  · exact fun path hpath => hanswer _ path hpath
  · intro id hid
    rw [← map_id_packageOf files] at hid
    exact ⟨answer_of_not_listed hid _, answer_of_not_listed hid _, answer_of_not_listed hid _⟩

/-- The archives in a directory make a catalogue exactly if the names that give identifiers differ
from each other; otherwise the first name that repeats an earlier one is told, and no identifier is
ever said to be bad. The host lists one package for each of these archives, in their order, and
hands out the files themselves. -/
theorem directory_packages_follow_archives {stack : List (String × Files.Entries)}
    (h : files.directory? directory = some stack) :
    ∃ paths, files.archivesIn? directory = some paths ∧
      ((∃ c, ofDirectory files directory = .ok c) ↔ ((usable paths).map stemOf).Nodup) ∧
      (∀ id, ofDirectory files directory ≠ .error (.badIdentifier id)) ∧
      (∀ fault, ofDirectory files directory = .error fault ↔ ∃ before path after,
        usable paths = before ++ path :: after ∧ (before.map stemOf).Nodup ∧
          stemOf path ∈ before.map stemOf ∧ fault = .repeatedIdentifier (stemOf path)) ∧
      ∀ c, ofDirectory files directory = .ok c →
        Presents files (usable paths) (c.host files) := by
  obtain ⟨paths, hpaths, hfiles⟩ := Tree.exists_archivesIn? h
  have hnodup_of_ok (c : Catalogue) (hc : ofDirectory files directory = .ok c) :
      ((usable paths).map stemOf).Nodup := by
    rw [ofDirectory_eq hpaths] at hc
    have hsound := isSound_of_ofPackages hc
    exact (isSound_packages_iff files fun _ => isFileName_of_mem_usable).mp hsound
  refine ⟨paths, hpaths, ⟨?_, ?_⟩, ?_, ?_, ?_⟩
  · rintro ⟨c, hc⟩
    exact hnodup_of_ok c hc
  · exact fun hnodup => ⟨_, ofDirectory_eq_ok hpaths hnodup⟩
  · intro id hbad
    obtain ⟨before, path, after, -, -, -, hfault⟩ := (ofDirectory_eq_error_iff hpaths).mp hbad
    cases hfault
  · exact fun fault => ofDirectory_eq_error_iff hpaths
  · intro c hc
    have hnodup := hnodup_of_ok c hc
    obtain rfl := Except.ok.inj ((ofDirectory_eq_ok hpaths hnodup).symm.trans hc)
    exact presents_host (fun path hpath => hfiles path (List.mem_of_mem_filter hpath)) hnodup

/-- The one archive of the sample that a search comes to, a link, becomes the package `b`. -/
theorem directory_packages_follow_archives_sample :
    Tree.sampleTree.directory? "/d" = some [("d", Tree.sampleEntries)] ∧
    Tree.sampleTree.archivesIn? "/d" = some ["/d/b.apk"] ∧
    usable ["/d/b.apk"] = ["/d/b.apk"] ∧ stemOf "/d/b.apk" = "b" ∧
    ∃ c, ofDirectory Tree.sampleTree "/d" = .ok c ∧
      Presents Tree.sampleTree ["/d/b.apk"] (c.host Tree.sampleTree) := by
  have hnames : usable ["/d/b.apk"] = ["/d/b.apk"] ∧ stemOf "/d/b.apk" = "b" := by decide +kernel
  obtain ⟨paths, hpaths, hok, -, -, hhost⟩ :=
    directory_packages_follow_archives Tree.directory?_sampleTree
  obtain rfl := Option.some.inj (Tree.archivesIn?_sampleTree.symm.trans hpaths)
  rw [hnames.1] at hok hhost
  obtain ⟨c, hc⟩ := hok.mpr (List.nodup_singleton _)
  exact ⟨Tree.directory?_sampleTree, hpaths, hnames.1, hnames.2, c, hc, hhost c hc⟩

end Catalogue

end VendorScreen
