import VendorScreen.Proofs.CommandLine.Lines
import VendorScreen.Proofs.Dex.Image
import VendorScreen.Proofs.Query.Failures
import VendorScreen.Proofs.Query.Listing

namespace VendorScreen.CommandLine

open Files (Tree)

/-!
# Lists of class names in print

The class names of an archive are printed as they are, one after the other. A descriptor may hold a
line feed, and a name with one in it is printed on two lines. Where there is no such name, the
printed lines are the names, and they tell the list.
-/

variable {files : Tree} {path text : String} {bytes : ByteArray} {names names' : List String}

/-- The archive opens, all its entries can be read, and these are the class names in its class
containers, in the order of its directory. -/
def IsListing (bytes : ByteArray) (names : List String) : Prop :=
  ∃ archive parts, Zip.Archive.open bytes = .ok archive ∧
    List.Forall₂ (Contributes bytes) archive.entries parts ∧ names = parts.flatten

theorem classNames_eq_ok_iff (path : String) :
    classNames path bytes = .ok names ↔ IsListing bytes names := by
  constructor
  · exact exists_archive_of_classNames
  · rintro ⟨archive, parts, hopen, hparts, rfl⟩
    rw [classNames_of_open path hopen, classesFrom_of_forall₂ hparts, List.nil_append]

theorem IsListing.unique (h : IsListing bytes names) (h' : IsListing bytes names') :
    names = names' := by
  rw [← classNames_eq_ok_iff ""] at h h'
  exact Outcome.ok.inj (h.symm.trans h')

/-- The listing is printed, and there is nothing else that the command prints. -/
theorem classes_eq_printed_iff : classes files path = .printed text ↔
    ∃ bytes names, openArchive files path = .ok bytes ∧ IsListing bytes names ∧
      text = Report.lines names := by
  unfold classes
  cases hopen : openArchive files path with
  | error message => simp
  | ok bytes =>
      simp only [← classNames_eq_ok_iff path, Except.ok.injEq, exists_eq_left',
        exists_and_left]
      cases classNames path bytes <;> simp [eq_comm]

/-- What is printed of an archive. -/
theorem classes_of_isListing (hopen : openArchive files path = .ok bytes)
    (h : IsListing bytes names) : classes files path = .printed (Report.lines names) :=
  classes_eq_printed_iff.mpr ⟨bytes, names, hopen, h, rfl⟩

/-- The lines that a listing is printed on are the pieces of its names. They are the names
themselves exactly if no name holds a line feed, and two listings without such names that are
printed alike are the same. -/
theorem printed_lines_give_names (h : classes files path = .printed text) :
    ∃ bytes names, openArchive files path = .ok bytes ∧ IsListing bytes names ∧
      text.toList.splitOn '\n' =
        names.flatMap (fun name => name.toList.splitOn '\n') ++ [[]] ∧
      (text.toList.splitOn '\n' = names.map String.toList ++ [[]] ↔
        ∀ name ∈ names, Report.IsUnbroken name) ∧
      ((∀ name ∈ names, Report.IsUnbroken name) → ∀ files' path' bytes' names',
        classes files' path' = .printed text → openArchive files' path' = .ok bytes' →
          IsListing bytes' names' → (∀ name ∈ names', Report.IsUnbroken name) →
            names' = names) := by
  obtain ⟨bytes, names, hopen, hlisting, rfl⟩ := classes_eq_printed_iff.mp h
  refine ⟨bytes, names, hopen, hlisting, Report.splitOn_lines names,
    Report.splitOn_lines_eq_iff, ?_⟩
  intro hunbroken files' path' bytes' names' hprinted hopen' hlisting' hunbroken'
  rw [classes_of_isListing hopen' hlisting', Ending.printed.injEq] at hprinted
  exact Report.eq_of_lines_eq hunbroken' hunbroken hprinted

section written

variable {b : ByteArray} {start : ℕ} {items : List Zip.Item} {parts : List (List String)}

/-- The class names in an item. -/
inductive HoldsNames (item : Zip.Item) : List String → Prop
  | other (hname : isClassContainer item.name = false) : HoldsNames item []
  | container {part : List String} (hname : isClassContainer item.name = true)
      (hnames : Dex.classNames item.content = .ok part) : HoldsNames item part

theorem contributes_of_delivers {item : Zip.Item} {entry : Zip.Entry} {part : List String}
    (h : Zip.Delivers b item entry) (hnames : HoldsNames item part) : Contributes b entry part := by
  obtain ⟨e, hopen, hbody⟩ := h.body
  cases hnames with
  | other hname => exact .other hopen (h.name ▸ hname)
  | container hname hnames =>
      exact .container hopen (h.name ▸ hname) ((Dex.decode_eq_ok_iff ..).mpr ⟨_, hbody, hnames⟩)

theorem forall₂_contributes (h : Bytes.Holds b start (Zip.records items))
    (hnames : List.Forall₂ HoldsNames items parts) :
    List.Forall₂ (Contributes b) (Zip.entriesFrom start items) parts := by
  induction hnames generalizing start with
  | nil => exact .nil
  | cons hitem _ ih =>
      rw [Zip.records, List.flatMap_cons, Bytes.holds_append] at h
      exact .cons (contributes_of_delivers (Zip.delivers_of_holds h.1) hitem) (ih h.2)

/-- An archive that is written from items lists the names in them. -/
theorem isListing_zippedBytes (hcount : items.length < 2 ^ 16)
    (hrecords : (Zip.records items).length < 2 ^ 32)
    (hdirectory : (Zip.directory (Zip.headersFrom 0 items)).length < 2 ^ 32)
    (hnarrow : Bytes.u32? (zippedBytes items) ((Zip.records items).length +
      (Zip.directory (Zip.headersFrom 0 items)).length - 20) ≠ some Zip.wideLocatorMark)
    (hnames : List.Forall₂ HoldsNames items parts) :
    IsListing (zippedBytes items) parts.flatten := by
  have harchive := isArchive_zippedBytes hcount hrecords hdirectory hnarrow
  refine ⟨⟨zippedBytes items, Zip.entriesFrom 0 items⟩, parts, ?_, ?_, rfl⟩
  · apply harchive.open_eq
    exact Zip.forall₂_readAs_headersFrom _ 0 0 (by omega) (by omega)
  · exact forall₂_contributes harchive.holds_front hnames

end written

/-- An archive with a class container of the classes with the given descriptors. -/
def classArchive (descriptors : List String) : ByteArray := zippedBytes [classItem descriptors]

theorem isListing_classArchive :
    IsListing (classArchive ["La;", "Lb;"]) ["a", "b"] ∧
      IsListing (classArchive ["La\nb;"]) ["a\nb"] := by
  have hfits : ∀ descriptors ∈ [["La;", "Lb;"], ["La\nb;"]],
      (Zip.records [classItem descriptors]).length < 2 ^ 32 ∧
      (Zip.directory (Zip.headersFrom 0 [classItem descriptors])).length < 2 ^ 32 ∧
      Bytes.u32? (zippedBytes [classItem descriptors])
        ((Zip.records [classItem descriptors]).length +
          (Zip.directory (Zip.headersFrom 0 [classItem descriptors])).length - 20) ≠
        some Zip.wideLocatorMark := by
    decide +kernel
  have hlisting (descriptors names : List String)
      (hmem : descriptors ∈ [["La;", "Lb;"], ["La\nb;"]])
      (hnames : Dex.classNames (classItem descriptors).content = .ok names) :
      IsListing (classArchive descriptors) names := by
    obtain ⟨hrecords, hdirectory, hnarrow⟩ := hfits descriptors hmem
    have hname : isClassContainer "classes.dex" = true := by decide
    have hitem : HoldsNames (classItem descriptors) names := .container hname hnames
    have hitems := isListing_zippedBytes (by simp) hrecords hdirectory hnarrow (.cons hitem .nil)
    rwa [List.flatten_cons, List.flatten_nil, List.append_nil] at hitems
  exact ⟨hlisting _ _ (by simp) (by decide +kernel), hlisting _ _ (by simp) (by decide +kernel)⟩

theorem openArchive_archiveFiles (bytes : ByteArray) :
    openArchive (archiveFiles bytes) "/a.apk" = .ok bytes := by
  rw [openArchive, read_archiveFiles]

/-- Two classes are printed on two lines. -/
theorem printed_lines_give_names_pair :
    classes (archiveFiles (classArchive ["La;", "Lb;"])) "/a.apk" = .printed "a\nb\n" ∧
    IsListing (classArchive ["La;", "Lb;"]) ["a", "b"] ∧
    (∀ name ∈ ["a", "b"], Report.IsUnbroken name) ∧
    "a\nb\n".toList.splitOn '\n' = ["a", "b"].map String.toList ++ [[]] := by
  have hpair := isListing_classArchive.1
  have hunbroken : ∀ name ∈ ["a", "b"], Report.IsUnbroken name := by
    simp [Report.IsUnbroken]
  have hprinted : classes (archiveFiles (classArchive ["La;", "Lb;"])) "/a.apk" =
      .printed "a\nb\n" := classes_of_isListing (openArchive_archiveFiles _) hpair
  refine ⟨hprinted, hpair, hunbroken, ?_⟩
  obtain ⟨bytes, names, hopen, hlisting, -, hlines, -⟩ := printed_lines_give_names hprinted
  obtain rfl := Except.ok.inj ((openArchive_archiveFiles _).symm.trans hopen)
  obtain rfl := hlisting.unique hpair
  exact hlines.mpr hunbroken

/-- A class whose name holds a line feed is listed like two classes. -/
theorem broken_name_printed_as_two :
    IsListing (classArchive ["La\nb;"]) ["a\nb"] ∧
    IsListing (classArchive ["La;", "Lb;"]) ["a", "b"] ∧
    classes (archiveFiles (classArchive ["La\nb;"])) "/a.apk" = .printed "a\nb\n" ∧
    classes (archiveFiles (classArchive ["La;", "Lb;"])) "/a.apk" = .printed "a\nb\n" ∧
    "a\nb\n".toList.splitOn '\n' = [['a'], ['b'], []] ∧
    ["a\nb"].map String.toList ++ [[]] = [['a', '\n', 'b'], []] := by
  obtain ⟨hpair, hbroken⟩ := isListing_classArchive
  refine ⟨hbroken, hpair, ?_, ?_, by decide, by decide⟩
  · exact classes_of_isListing (openArchive_archiveFiles _) hbroken
  · exact classes_of_isListing (openArchive_archiveFiles _) hpair

end VendorScreen.CommandLine
