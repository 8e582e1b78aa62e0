import VendorScreen.Files.ArchiveSearch
import VendorScreen.Proofs.Files.Tree

namespace VendorScreen.Files

open VendorScreen.Files.Path (IsEntryName namesLe namesLe_antisymm namesLe_total namesLe_trans
  pathOf pathOf_injective)

/-!
# Archives that a search finds

A search comes to every archive below the directory where it begins, and lists those that no rule on
the way leaves out. Such rules stand in files of their own, in any directory on the way or above it,
so a file that is no archive can hide one.
-/

def Node.IsLeaf : Node → Prop
  | .directory _ => False
  | _ => True

theorem Node.exists_of_not_isLeaf {node : Node} (h : ¬ node.IsLeaf) :
    ∃ inner, node = .directory inner := by
  cases node with
  | directory inner => exact ⟨inner, rfl⟩
  | file | link => exact absurd trivial h

namespace Tree

/-- The names lead to a file or to a link that leads to one, and its extension is that of archives.
The entries are those of the directory. -/
structure IsArchive (t : Tree) (directory : String) (entries : Entries) (names : List String) :
    Prop where
  leads : ∃ node : Node, LeadsTo entries names node ∧ node.IsLeaf
  isFile : t.isFile (pathOf directory names) = true
  extension : Path.extension? (pathOf directory names) = some archiveExtension

/-- No rule leaves out what the names lead to, or a directory on the way. -/
def Spares (t : Tree) : RulesInForce → String → List String → Prop
  | _, _, [] => True
  | rules, directory, [name] => rules.isIgnored (Path.join directory name) false = false
  | rules, directory, name :: next :: rest =>
      let path := Path.join directory name
      rules.isIgnored path true = false ∧
        t.Spares (rules.enter (t.rulesIn path) path) path (next :: rest)

variable {t : Tree} {rules : RulesInForce} {directory name path : String}
  {names done : List String} {entries inner : Entries} {node : Node} {found : Found}

theorem spares_cons (hne : names ≠ []) : t.Spares rules directory (name :: names) ↔
    rules.isIgnored (Path.join directory name) true = false ∧
      t.Spares (rules.enter (t.rulesIn (Path.join directory name)) (Path.join directory name))
        (Path.join directory name) names := by
  cases names with
  | nil => exact absurd rfl hne
  | cons next rest => rfl

theorem searchEntries_eq (t : Tree) (rules : RulesInForce) (directory : String)
    (done : List String) (entries : Entries) : t.searchEntries rules directory done entries =
      entries.flatMap fun entry =>
        t.searchNode rules (Path.join directory entry.1) (done ++ [entry.1]) entry.2 := by
  induction entries with
  | nil => rfl
  | cons entry entries ih => rw [searchEntries, ih, List.flatMap_cons]

theorem searchNode_of_isLeaf (h : node.IsLeaf) :
    t.searchNode rules path done node = t.searchFile rules path done := by
  cases node with
  | directory inner => exact absurd h id
  | file bytes modified => rw [searchNode]
  | link target => rw [searchNode]

theorem mem_searchFile_iff : found ∈ t.searchFile rules path done ↔
    rules.isIgnored path false = false ∧ t.isFile path = true ∧
      Path.extension? path = some archiveExtension ∧ found = ⟨done, path⟩ := by
  rw [searchFile]
  split_ifs with h
  · simp only [Bool.and_eq_true, Bool.not_eq_true', decide_eq_true_eq] at h
    simp [h]
  · simp only [Bool.and_eq_true, Bool.not_eq_true', decide_eq_true_eq] at h
    simp only [List.not_mem_nil, false_iff]
    rintro ⟨hspared, hfile, hextension, -⟩
    exact h ⟨⟨hspared, hfile⟩, hextension⟩

/-- A search lists the archives that the rules spare, each under the names that lead to it. -/
theorem mem_searchEntries_iff (t : Tree) (entries : Entries) (rules : RulesInForce)
    (directory : String) (done : List String) (found : Found) :
    found ∈ t.searchEntries rules directory done entries ↔
      ∃ names, t.IsArchive directory entries names ∧ t.Spares rules directory names ∧
        found = ⟨done ++ names, pathOf directory names⟩ := by
  induction entries using entries_induction generalizing rules directory done with
  | step entries ih =>
    rw [searchEntries_eq, List.mem_flatMap]
    constructor
    · rintro ⟨⟨name, node⟩, hmem, hfound⟩
      by_cases hleaf : node.IsLeaf
      · rw [searchNode_of_isLeaf hleaf, mem_searchFile_iff] at hfound
        obtain ⟨hspared, hfile, hextension, rfl⟩ := hfound
        exact ⟨[name], ⟨⟨node, .here hmem, hleaf⟩, hfile, hextension⟩, hspared, rfl⟩
      · obtain ⟨inner, rfl⟩ := Node.exists_of_not_isLeaf hleaf
        rw [searchNode] at hfound
        split_ifs at hfound with hignored
        · cases hfound
        · obtain ⟨names, ⟨⟨leaf, hleads, hleaf⟩, hfile, hextension⟩, hspared, rfl⟩ :=
            (ih name inner hmem _ _ _).mp hfound
          refine ⟨name :: names, ⟨⟨leaf, .inside hmem hleads, hleaf⟩, hfile, hextension⟩, ?_, ?_⟩
          · exact (spares_cons hleads.ne_nil).mpr ⟨Bool.not_eq_true _ ▸ hignored, hspared⟩
          · rw [List.append_assoc]
            rfl
    · rintro ⟨names, ⟨⟨leaf, hleads, hleaf⟩, hfile, hextension⟩, hspared, rfl⟩
      cases hleads with
      | @here _ name _ hmem =>
          refine ⟨(name, leaf), hmem, ?_⟩
          rw [searchNode_of_isLeaf hleaf, mem_searchFile_iff]
          exact ⟨hspared, hfile, hextension, rfl⟩
      | @inside _ inner name names _ hmem hinner =>
          rw [spares_cons hinner.ne_nil] at hspared
          refine ⟨(name, .directory inner), hmem, ?_⟩
          rw [searchNode, if_neg (by simp [hspared.1])]
          refine (ih name inner hmem _ _ _).mpr ⟨names, ?_, hspared.2, ?_⟩
          · exact ⟨⟨leaf, hinner, hleaf⟩, hfile, hextension⟩
          · rw [List.append_assoc]
            rfl

theorem exists_names_of_mem_searchNode (hfound : found ∈ t.searchNode rules path done node) :
    ∃ names, found.names = done ++ names := by
  by_cases hleaf : node.IsLeaf
  · rw [searchNode_of_isLeaf hleaf, mem_searchFile_iff] at hfound
    obtain ⟨-, -, -, rfl⟩ := hfound
    exact ⟨[], (List.append_nil done).symm⟩
  · obtain ⟨inner, rfl⟩ := Node.exists_of_not_isLeaf hleaf
    rw [searchNode] at hfound
    split_ifs at hfound
    · cases hfound
    · obtain ⟨names, -, -, rfl⟩ := (mem_searchEntries_iff _ _ _ _ _ _).mp hfound
      exact ⟨names, rfl⟩

/-- A search comes to nothing twice, as each directory has its names only once. -/
theorem nodup_searchEntries (h : IsProper entries) (rules : RulesInForce) (directory : String)
    (done : List String) :
    ((t.searchEntries rules directory done entries).map Found.names).Nodup := by
  induction h generalizing rules directory done with
  | @mk entries hnodup hnames hinner ih =>
      rw [searchEntries_eq, List.map_flatMap, List.nodup_flatMap]
      constructor
      · rintro ⟨name, node⟩ hmem
        cases node with
        | directory inner =>
            rw [searchNode]
            split_ifs
            · exact List.nodup_nil
            · exact ih name inner hmem _ _ _
        | file bytes modified | link target =>
            rw [searchNode, searchFile]
            split_ifs <;> simp
      · -- What is found in two entries differs in the first name behind `done`.
        refine List.Pairwise.imp ?_ (List.pairwise_map.mp hnodup)
        intro a b hab names hnamesA hnamesB
        obtain ⟨x, hx, rfl⟩ := List.mem_map.mp hnamesA
        obtain ⟨y, hy, hyx⟩ := List.mem_map.mp hnamesB
        obtain ⟨restA, hrestA⟩ := exists_names_of_mem_searchNode hx
        obtain ⟨restB, hrestB⟩ := exists_names_of_mem_searchNode hy
        rw [hrestA, hrestB, List.append_assoc, List.append_assoc] at hyx
        exact hab (List.cons.inj (List.append_cancel_left hyx)).1.symm

end Tree

/-- The paths lead by the names that are chosen. Each of them is listed once, and they are in the
order of their names. -/
def IsListing (directory : String) (chosen : List String → Prop) (paths : List String) : Prop :=
  ∃ listed : List (List String), paths = listed.map (pathOf directory) ∧ paths.Nodup ∧
    listed.Pairwise (fun a b => namesLe a b = true) ∧ ∀ names, names ∈ listed ↔ chosen names

namespace IsListing

variable {directory : String} {chosen chosen' : List String → Prop} {paths paths' : List String}
  {names : List String}

theorem congr (h : IsListing directory chosen paths)
    (hsame : ∀ names, chosen names ↔ chosen' names) : IsListing directory chosen' paths := by
  obtain ⟨listed, hpaths, hnodup, hsorted, hmem⟩ := h
  exact ⟨listed, hpaths, hnodup, hsorted, fun names => (hmem names).trans (hsame names)⟩

/-- What is to be listed settles the list. -/
theorem unique (h : IsListing directory chosen paths) (h' : IsListing directory chosen paths') :
    paths = paths' := by
  obtain ⟨listed, rfl, hnodup, hsorted, hmem⟩ := h
  obtain ⟨listed', rfl, hnodup', hsorted', hmem'⟩ := h'
  have hperm : listed.Perm listed' := by
    rw [List.perm_ext_iff_of_nodup hnodup.of_map hnodup'.of_map]
    exact fun names => (hmem names).trans (hmem' names).symm
  have hlisted : listed = listed' :=
    hperm.eq_of_pairwise (fun a b _ _ => namesLe_antisymm) hsorted hsorted'
  rw [hlisted]

theorem mem_iff (h : IsListing directory chosen paths) {path : String} :
    path ∈ paths ↔ ∃ names, chosen names ∧ pathOf directory names = path := by
  obtain ⟨listed, rfl, -, -, hmem⟩ := h
  simp only [List.mem_map, hmem]

end IsListing

namespace Tree

/-- Rules leave out nothing on the way, and the directory does not stand for the standard input. -/
def LetsThrough (t : Tree) (directory : String) (stack : List (String × Entries))
    (names : List String) : Prop :=
  isDash directory = false ∧
    t.Spares (t.rulesAtStart directory (stack.map Prod.fst)) directory names

variable {t : Tree} {directory : String} {stack : List (String × Entries)} {names : List String}
  {paths : List String}

theorem IsArchive.isEntryName (hroot : IsProper t.root)
    (hdirectory : t.directory? directory = some stack)
    (h : t.IsArchive directory (entriesAt t.root stack) names) :
    names ≠ [] ∧ ∀ name ∈ names, IsEntryName name := by
  obtain ⟨node, hleads, -⟩ := h.leads
  refine ⟨hleads.ne_nil, ?_⟩
  intro name hname
  exact ((isProper_entriesAt hroot hdirectory).isName_of_leadsTo hleads name hname).toIsEntryName

theorem directory_ne_empty (h : t.directory? directory = some stack) : directory ≠ "" := by
  rintro rfl
  rw [directory?_eq_some_iff, find] at h
  simp at h

/-- Archives are told apart by their paths. -/
theorem IsArchive.names_eq {names' : List String} (hroot : IsProper t.root)
    (hdirectory : t.directory? directory = some stack)
    (h : t.IsArchive directory (entriesAt t.root stack) names)
    (h' : t.IsArchive directory (entriesAt t.root stack) names')
    (hpath : pathOf directory names = pathOf directory names') : names = names' := by
  obtain ⟨hne, hnames⟩ := h.isEntryName hroot hdirectory
  obtain ⟨hne', hnames'⟩ := h'.isEntryName hroot hdirectory
  exact pathOf_injective (directory_ne_empty hdirectory) hnames hnames' hne hne' hpath

/-- A directory can be searched, and all that a search lists are files. -/
theorem exists_archivesIn? (h : t.directory? directory = some stack) :
    ∃ paths, t.archivesIn? directory = some paths ∧
      ∀ path ∈ paths, ∃ bytes modified, t.find path = .ok (.file bytes modified) := by
  rw [archivesIn?, h]
  dsimp only
  by_cases hdash : isDash directory = true
  · exact ⟨[], if_pos hdash, by simp⟩
  · refine ⟨_, if_neg hdash, ?_⟩
    intro path hpath
    obtain ⟨found, hfound, rfl⟩ := List.mem_map.mp hpath
    obtain ⟨names, harchive, -, rfl⟩ :=
      (mem_searchEntries_iff _ _ _ _ _ _).mp ((List.mergeSort_perm _ _).mem_iff.mp hfound)
    exact isFile_iff.mp harchive.isFile

theorem exists_isListing (hroot : IsProper t.root)
    (hdirectory : t.directory? directory = some stack) :
    ∃ paths, t.archivesIn? directory = some paths ∧
      IsListing directory (fun names => t.IsArchive directory (entriesAt t.root stack) names ∧
        t.LetsThrough directory stack names) paths := by
  rw [archivesIn?, hdirectory]
  dsimp only
  by_cases hdash : isDash directory = true
  · rw [if_pos hdash]
    refine ⟨[], rfl, [], rfl, List.nodup_nil, .nil, ?_⟩
    simp [LetsThrough, hdash]
  · rw [if_neg hdash]
    rw [Bool.not_eq_true] at hdash
    set rules := t.rulesAtStart directory (stack.map Prod.fst) with hrules
    set found := t.searchEntries rules directory [] (entriesAt t.root stack) with hfound
    set sorted := found.mergeSort fun a b => namesLe a.names b.names with hsorted
    have hperm : sorted.Perm found := List.mergeSort_perm _ _
    have hpath (f : Found) (hf : f ∈ sorted) : f.path = pathOf directory f.names := by
      obtain ⟨names, -, -, rfl⟩ := (mem_searchEntries_iff _ _ _ _ _ _).mp (hperm.mem_iff.mp hf)
      rfl
    have hmem (names : List String) : names ∈ sorted.map Found.names ↔
        t.IsArchive directory (entriesAt t.root stack) names ∧
          t.LetsThrough directory stack names := by
      rw [(hperm.map Found.names).mem_iff, List.mem_map]
      simp only [hfound, mem_searchEntries_iff, LetsThrough, hdash, true_and, List.nil_append]
      constructor
      · rintro ⟨f, ⟨other, harchive, hspared, rfl⟩, rfl⟩
        exact ⟨harchive, hspared⟩
      · rintro ⟨harchive, hspared⟩
        exact ⟨_, ⟨names, harchive, hspared, rfl⟩, rfl⟩
    have hlisted : sorted.map Found.path = (sorted.map Found.names).map (pathOf directory) := by
      rw [List.map_map]
      exact List.map_congr_left hpath
    have hnodup : (sorted.map Found.names).Nodup :=
      (hperm.map Found.names).nodup_iff.mpr
        (nodup_searchEntries (isProper_entriesAt hroot hdirectory) _ _ _)
    refine ⟨_, rfl, sorted.map Found.names, hlisted, ?_, ?_, hmem⟩
    · rw [hlisted]
      apply hnodup.map_on
      intro names hnames names' hnames' hsame
      exact ((hmem names).mp hnames).1.names_eq hroot hdirectory ((hmem names').mp hnames').1 hsame
    · rw [List.pairwise_map]
      apply List.pairwise_mergeSort
      · exact fun a b c => namesLe_trans
      · intro a b
        simpa using namesLe_total a.names b.names

/-! ## Without rules -/

theorem rulesName_isEntryName : IsEntryName rulesName := ⟨by decide, by decide⟩

/-- Where no entry has the name that rules stand under, there are none. -/
theorem rulesIn_eq_nil (h : ∀ names node, LeadsTo t.root names node → rulesName ∉ names)
    (path : String) : t.rulesIn path = [] := by
  rw [rulesIn, read]
  cases hfind : t.find (Path.join path rulesName) with
  | error fault => rfl
  | ok place =>
      have hjoin : ∃ base, Path.join t.current (Path.join path rulesName) =
          Path.join base rulesName := by
        by_cases hpath : path = ""
        · exact ⟨t.current, by rw [hpath]; rfl⟩
        · exact ⟨_, Path.join_join hpath rulesName_isEntryName⟩
      obtain ⟨base, hbase⟩ := hjoin
      obtain ⟨front, hfront⟩ := Path.exists_steps_join base rulesName_isEntryName
      rw [find] at hfind
      split_ifs at hfind
      rw [hbase, hfront] at hfind
      obtain ⟨names, node, hleads⟩ := exists_leadsTo_of_follow (by decide) hfind
      exact absurd (by simp) (h _ node hleads)

/-- Every rule in force comes from a file that holds none. -/
def IsFree (rules : RulesInForce) : Prop := ∀ placed ∈ rules.within ++ rules.above, placed.rules = []

theorem isIgnored_of_isFree {rules : RulesInForce} (h : IsFree rules) (path : String)
    (isDirectory : Bool) : rules.isIgnored path isDirectory = false := by
  have hverdict (placed : PlacedRules) (hplaced : placed ∈ rules.within ++ rules.above)
      (path : List Char) : placed.verdict? path isDirectory = none := by
    rw [PlacedRules.verdict?, h placed hplaced]
    rfl
  have hwithin (path : List Char) :
      (rules.within.findSome? fun placed => placed.verdict? path isDirectory) = none :=
    List.findSome?_eq_none_iff.mpr fun placed hplaced =>
      hverdict placed (List.mem_append_left _ hplaced) path
  have habove (path : List Char) :
      (rules.above.findSome? fun placed => placed.verdict? path isDirectory) = none :=
    List.findSome?_eq_none_iff.mpr fun placed hplaced =>
      hverdict placed (List.mem_append_right _ hplaced) path
  simp only [RulesInForce.isIgnored, hwithin, habove]
  rfl

theorem spares_of_isFree {rules : RulesInForce} (hrules : ∀ path, t.rulesIn path = [])
    (h : IsFree rules) (directory : String) (names : List String) :
    t.Spares rules directory names := by
  induction names generalizing rules directory with
  | nil => trivial
  | cons name names ih =>
      by_cases hne : names = []
      · subst hne
        exact isIgnored_of_isFree h _ _
      · refine (spares_cons hne).mpr ⟨isIgnored_of_isFree h _ _, ih ?_ _⟩
        intro placed hplaced
        rcases List.mem_cons.mp hplaced with rfl | hplaced
        · exact hrules _
        · exact h placed hplaced

theorem isFree_rulesAtStart (hrules : ∀ path, t.rulesIn path = []) (directory : String)
    (names : List String) : IsFree (t.rulesAtStart directory names) := by
  have habove (names : List String) : ∀ placed ∈ t.rulesAbove names, placed.rules = [] := by
    induction names with
    | nil => simp [rulesAbove]
    | cons name names ih =>
        intro placed hplaced
        rcases List.mem_cons.mp hplaced with rfl | hplaced
        · exact hrules _
        · exact ih placed hplaced
  intro placed hplaced
  rcases List.mem_cons.mp hplaced with rfl | hplaced
  · exact hrules _
  · exact habove names placed hplaced

/-! ## What a search finds -/

/-- The files with the right extension are archives, as long as their paths are not too long. -/
theorem isArchive_of_file {bytes : ByteArray} {modified : ℤ} (hroot : IsProper t.root)
    (hdirectory : t.directory? directory = some stack)
    (h : LeadsTo (entriesAt t.root stack) names (.file bytes modified))
    (hsize : (pathOf directory names).utf8ByteSize ≤ maxPathBytes)
    (hextension : Path.extension? (pathOf directory names) = some archiveExtension) :
    t.IsArchive directory (entriesAt t.root stack) names where
  leads := ⟨_, h, trivial⟩
  isFile := by rw [isFile, find_pathOf hroot hdirectory h hsize]
  extension := hextension

/-- A search lists every archive below a directory, once and in the order of names, unless a rule
leaves it out or the directory stands for the standard input. No rule does where no entry of the
tree has the name that rules stand under, and other entries make no difference at all. -/
theorem archives_found_unless_ignored (hroot : IsProper t.root)
    (hdirectory : t.directory? directory = some stack) :
    (∃ paths, t.archivesIn? directory = some paths ∧ IsListing directory
      (fun names => t.IsArchive directory (entriesAt t.root stack) names ∧
        t.LetsThrough directory stack names) paths) ∧
    ((∃ paths, t.archivesIn? directory = some paths ∧
        IsListing directory (t.IsArchive directory (entriesAt t.root stack)) paths) ↔
      ∀ names, t.IsArchive directory (entriesAt t.root stack) names →
        t.LetsThrough directory stack names) ∧
    (isDash directory = false → (∀ names node, LeadsTo t.root names node → rulesName ∉ names) →
      ∀ names, t.LetsThrough directory stack names) ∧
    (∀ names bytes modified, LeadsTo (entriesAt t.root stack) names (.file bytes modified) →
      (pathOf directory names).utf8ByteSize ≤ maxPathBytes →
      Path.extension? (pathOf directory names) = some archiveExtension →
      t.IsArchive directory (entriesAt t.root stack) names) ∧
    ∀ (t' : Tree) (stack' : List (String × Entries)), IsProper t'.root →
      t'.directory? directory = some stack' →
      (∀ names,
        t'.IsArchive directory (entriesAt t'.root stack') names ∧
          t'.LetsThrough directory stack' names ↔
        t.IsArchive directory (entriesAt t.root stack) names ∧
          t.LetsThrough directory stack names) →
      t'.archivesIn? directory = t.archivesIn? directory := by
  obtain ⟨paths, hpaths, hlisting⟩ := exists_isListing hroot hdirectory
  refine ⟨⟨paths, hpaths, hlisting⟩, ⟨?_, ?_⟩, ?_, ?_, ?_⟩
  · rintro ⟨paths', hpaths', hall⟩ names harchive
    obtain rfl : paths = paths' := Option.some.inj (hpaths.symm.trans hpaths')
    have hlisted : pathOf directory names ∈ paths := hall.mem_iff.mpr ⟨names, harchive, rfl⟩
    obtain ⟨other, ⟨hother, hthrough⟩, hsame⟩ := hlisting.mem_iff.mp hlisted
    exact hother.names_eq hroot hdirectory harchive hsame ▸ hthrough
  · intro hthrough
    refine ⟨paths, hpaths, hlisting.congr fun names => ?_⟩
    exact ⟨And.left, fun harchive => ⟨harchive, hthrough names harchive⟩⟩
  · intro hdash hnone names
    have hrules := rulesIn_eq_nil hnone
    exact ⟨hdash, spares_of_isFree hrules (isFree_rulesAtStart hrules _ _) _ _⟩
  · intro names bytes modified
    exact isArchive_of_file hroot hdirectory
  · intro t' stack' hroot' hdirectory' hsame
    obtain ⟨paths', hpaths', hlisting'⟩ := exists_isListing hroot' hdirectory'
    rw [hpaths, hpaths', (hlisting'.congr hsame).unique hlisting]

/-- Two archives, and a file of rules that leaves one of them out. -/
def sampleEntries : Entries :=
  [(".ignore", .file "a.apk\n".toUTF8 0), ("a.apk", .file ⟨#[1]⟩ 0), ("b.apk", .link "a.apk")]

def sampleTree : Tree := ⟨[("d", .directory sampleEntries)], "/"⟩

theorem isProper_sampleTree : IsProper sampleTree.root := by
  have hinner : IsProper sampleEntries := by
    constructor
    · decide
    · intro name node hmem
      have hname : name = ".ignore" ∨ name = "a.apk" ∨ name = "b.apk" := by
        simpa [sampleEntries] using List.mem_map_of_mem (f := Prod.fst) hmem
      rcases hname with rfl | rfl | rfl <;>
        exact ⟨⟨by decide, by decide⟩, by decide, by decide, by decide, by decide⟩
    · simp [sampleEntries]
  constructor
  · decide
  · intro name node hmem
    obtain ⟨rfl, -⟩ := Prod.ext_iff.mp (List.mem_singleton.mp hmem)
    exact ⟨⟨by decide, by decide⟩, by decide, by decide, by decide, by decide⟩
  · intro name inner hmem
    obtain ⟨-, hnode⟩ := Prod.ext_iff.mp (List.mem_singleton.mp hmem)
    obtain rfl := Node.directory.inj hnode
    exact hinner

theorem find_sampleTree : sampleTree.find "/d" = .ok (.directory [("d", sampleEntries)]) ∧
    sampleTree.find "/d/.ignore" = .ok (.file "a.apk\n".toUTF8 0) ∧
    sampleTree.find "/.ignore" = .error .missing ∧
    sampleTree.find "/d/a.apk" = .ok (.file ⟨#[1]⟩ 0) ∧
    sampleTree.find "/d/b.apk" = .ok (.file ⟨#[1]⟩ 0) := by
  have hsteps : Path.steps (Path.join "/" "/d") = ["d"] ∧
      Path.steps (Path.join "/" "/d/.ignore") = ["d", ".ignore"] ∧
      Path.steps (Path.join "/" "/.ignore") = [".ignore"] ∧
      Path.steps (Path.join "/" "/d/a.apk") = ["d", "a.apk"] ∧
      Path.steps (Path.join "/" "/d/b.apk") = ["d", "b.apk"] ∧
      Path.steps "a.apk" = ["a.apk"] := by decide +kernel
  have hsizes : "d".utf8ByteSize = 1 ∧ ".ignore".utf8ByteSize = 7 ∧ "a.apk".utf8ByteSize = 5 ∧
      "b.apk".utf8ByteSize = 5 := by decide +kernel
  have hpaths : "/d".utf8ByteSize = 2 ∧ "/d/.ignore".utf8ByteSize = 10 ∧
      "/.ignore".utf8ByteSize = 8 ∧ "/d/a.apk".utf8ByteSize = 8 ∧
      "/d/b.apk".utf8ByteSize = 8 := by decide +kernel
  have hroot : Path.isAbsolute "a.apk" = false := by decide
  refine ⟨?_, ?_, ?_, ?_, ?_⟩ <;>
    simp [find, maxPathBytes, maxNameBytes, maxLinks, follow, entriesAt, sampleTree, sampleEntries,
      hsteps, hsizes, hpaths, hroot, List.lookup]

/-- The rules that count in the directory of the sample. -/
def sampleRules : RulesInForce :=
  { start := "/d".toList, resolved := "/d"
    within := [.ofDirectory (.ofBytes "a.apk\n".toUTF8) "/d"], above := [.ofDirectory [] "/"] }

theorem rulesAtStart_sampleTree : sampleTree.rulesAtStart "/d" ["d"] = sampleRules := by
  have hnames : directoryNamed ["d"] = "/d" ∧ directoryNamed [] = "/" := by decide +kernel
  have hjoin : Path.join "/d" rulesName = "/d/.ignore" ∧ Path.join "/" rulesName = "/.ignore" := by
    decide +kernel
  obtain ⟨-, hinner, hroot, -, -⟩ := find_sampleTree
  simp only [rulesAtStart, rulesAbove, rulesIn, read, hnames, hjoin, hinner, hroot, sampleRules]

theorem directory?_sampleTree : sampleTree.directory? "/d" = some [("d", sampleEntries)] :=
  directory?_eq_some_iff.mpr find_sampleTree.1

theorem archivesIn?_sampleTree : sampleTree.archivesIn? "/d" = some ["/d/b.apk"] := by
  obtain ⟨-, -, -, ha, hb⟩ := find_sampleTree
  have hpaths : Path.join "/d" ".ignore" = "/d/.ignore" ∧ Path.join "/d" "a.apk" = "/d/a.apk" ∧
      Path.join "/d" "b.apk" = "/d/b.apk" := by decide +kernel
  have hignored : sampleRules.isIgnored "/d/a.apk" false = true ∧
      sampleRules.isIgnored "/d/b.apk" false = false := by decide +kernel
  have hextensions : Path.extension? "/d/.ignore" = none ∧
      Path.extension? "/d/b.apk" = some archiveExtension := by decide +kernel
  have hdash : isDash "/d" = false := by decide +kernel
  have hfound : sampleTree.searchEntries sampleRules "/d" [] sampleEntries =
      [⟨["b.apk"], "/d/b.apk"⟩] := by
    simp [searchEntries_eq, sampleEntries, searchNode, searchFile, isFile, hpaths, hignored,
      hextensions, ha, hb]
  simp [archivesIn?, directory?_sampleTree, hdash, rulesAtStart_sampleTree, entriesAt, hfound]

/-- The archive that no rule leaves out is listed, and the other one is not. -/
theorem archives_found_unless_ignored_sample :
    IsProper sampleTree.root ∧ sampleTree.directory? "/d" = some [("d", sampleEntries)] ∧
    sampleTree.archivesIn? "/d" = some ["/d/b.apk"] ∧
    IsListing "/d" (fun names => sampleTree.IsArchive "/d" sampleEntries names ∧
      sampleTree.LetsThrough "/d" [("d", sampleEntries)] names) ["/d/b.apk"] := by
  obtain ⟨⟨paths, hpaths, hlisting⟩, -⟩ :=
    archives_found_unless_ignored isProper_sampleTree directory?_sampleTree
  obtain rfl := Option.some.inj (archivesIn?_sampleTree.symm.trans hpaths)
  exact ⟨isProper_sampleTree, directory?_sampleTree, hpaths, hlisting⟩

/-- A file that is no archive hides one that stands beside it. -/
theorem archive_hidden_by_rules :
    IsProper sampleTree.root ∧ sampleTree.directory? "/d" = some [("d", sampleEntries)] ∧
    sampleTree.IsArchive "/d" sampleEntries ["a.apk"] ∧ pathOf "/d" ["a.apk"] = "/d/a.apk" ∧
    sampleTree.archivesIn? "/d" = some ["/d/b.apk"] ∧
    ¬ ∃ paths, sampleTree.archivesIn? "/d" = some paths ∧
      IsListing "/d" (sampleTree.IsArchive "/d" sampleEntries) paths := by
  have hpath : pathOf "/d" ["a.apk"] = "/d/a.apk" := by decide +kernel
  have hfile : LeadsTo sampleEntries ["a.apk"] (.file ⟨#[1]⟩ 0) :=
    .here (by simp [sampleEntries])
  have harchive : sampleTree.IsArchive "/d" sampleEntries ["a.apk"] :=
    isArchive_of_file isProper_sampleTree directory?_sampleTree hfile (by decide +kernel)
      (by decide +kernel)
  refine ⟨isProper_sampleTree, directory?_sampleTree, harchive, hpath, archivesIn?_sampleTree, ?_⟩
  rintro ⟨paths, hpaths, hlisting⟩
  obtain rfl := Option.some.inj (archivesIn?_sampleTree.symm.trans hpaths)
  have hlisted := hlisting.mem_iff.mpr ⟨["a.apk"], harchive, hpath⟩
  revert hlisted
  decide

end Tree

end VendorScreen.Files
