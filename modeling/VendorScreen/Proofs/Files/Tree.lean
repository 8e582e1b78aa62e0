import VendorScreen.Files.Tree
import VendorScreen.Proofs.Files.Path

namespace VendorScreen.Files

/-!
# Trees walked and trees searched by path

A tree can be walked from a directory down, entry by entry, and it can be asked for what a path leads
to. Where each directory has its names only once, the path that is joined from the names on the walk
leads to what the walk came to.
-/

/-- Names that lead from some entries to a node. Links on the way are not followed. -/
inductive LeadsTo : Entries → List String → Node → Prop
  | here {entries : Entries} {name : String} {node : Node} (hmem : (name, node) ∈ entries) :
      LeadsTo entries [name] node
  | inside {entries inner : Entries} {name : String} {names : List String} {node : Node}
      (hmem : (name, .directory inner) ∈ entries) (hinner : LeadsTo inner names node) :
      LeadsTo entries (name :: names) node

/-- A name that a system lets an entry have. -/
structure IsName (name : String) : Prop extends Path.IsEntryName name where
  ne_dot : name ≠ "."
  ne_dots : name ≠ ".."
  nul_notMem : '\x00' ∉ name.toList
  size_le : name.utf8ByteSize ≤ Tree.maxNameBytes

/-- Every directory has each of its names once, and all of them are names that an entry may have. -/
inductive IsProper : Entries → Prop
  | mk {entries : Entries} (hnodup : (entries.map Prod.fst).Nodup)
      (hnames : ∀ name node, (name, node) ∈ entries → IsName name)
      (hinner : ∀ name inner, (name, .directory inner) ∈ entries → IsProper inner) :
      IsProper entries

theorem entries_induction {P : Entries → Prop}
    (step : ∀ entries, (∀ name inner, (name, Node.directory inner) ∈ entries → P inner) →
      P entries) (entries : Entries) : P entries :=
  step entries fun _ inner _hmem => entries_induction step inner
termination_by sizeOf entries
decreasing_by
  have hlt := List.sizeOf_lt_of_mem _hmem
  simp only [Prod.mk.sizeOf_spec, Node.directory.sizeOf_spec] at hlt
  omega

variable {root entries inner : Entries} {links : ℕ} {stack stack' : List (String × Entries)}
  {steps rest names : List String} {name : String} {node : Node}

namespace LeadsTo

theorem ne_nil (h : LeadsTo entries names node) : names ≠ [] := by
  cases h <;> exact List.cons_ne_nil _ _

theorem append (h : LeadsTo entries names (.directory inner)) (hmem : (name, node) ∈ inner) :
    LeadsTo entries (names ++ [name]) node := by
  generalize hreached : Node.directory inner = reached at h
  induction h with
  | here hentry =>
      subst hreached
      exact .inside hentry (.here hmem)
  | inside hentry _ ih => exact .inside hentry (ih hreached)

end LeadsTo

namespace IsProper

theorem nodup (h : IsProper entries) : (entries.map Prod.fst).Nodup := by
  cases h
  assumption

theorem isName (h : IsProper entries) (hmem : (name, node) ∈ entries) : IsName name := by
  cases h with
  | mk _ hnames _ => exact hnames name node hmem

theorem of_mem (h : IsProper entries) (hmem : (name, .directory inner) ∈ entries) :
    IsProper inner := by
  cases h with
  | mk _ _ hinner => exact hinner name inner hmem

theorem of_leadsTo (h : IsProper entries) (hleads : LeadsTo entries names (.directory inner)) :
    IsProper inner := by
  generalize hreached : Node.directory inner = reached at hleads
  induction hleads with
  | here hmem =>
      subst hreached
      exact h.of_mem hmem
  | inside hmem _ ih => exact ih (h.of_mem hmem) hreached

theorem isName_of_leadsTo (h : IsProper entries) (hleads : LeadsTo entries names node) :
    ∀ name ∈ names, IsName name := by
  induction hleads with
  | here hmem => simpa using h.isName hmem
  | inside hmem _ ih =>
      intro other hother
      rcases List.mem_cons.mp hother with rfl | hother
      · exact h.isName hmem
      · exact ih (h.of_mem hmem) other hother

theorem lookup_eq (h : IsProper entries) (hmem : (name, node) ∈ entries) :
    entries.lookup name = some node := by
  have hnodup := h.nodup
  clear h
  induction entries with
  | nil => cases hmem
  | cons entry entries ih =>
      rw [List.map_cons, List.nodup_cons] at hnodup
      rcases List.mem_cons.mp hmem with rfl | hmem
      · simp [List.lookup]
      · have hother : name ≠ entry.1 := fun h => hnodup.1 (h ▸ List.mem_map_of_mem hmem)
        rw [List.lookup_cons, beq_eq_false_iff_ne.mpr hother]
        exact ih hmem hnodup.2

theorem mem_of_lookup (h : entries.lookup name = some node) : (name, node) ∈ entries := by
  obtain ⟨before, after, rfl, -⟩ := List.lookup_eq_some_iff.mp h
  simp

end IsProper

namespace Tree

theorem exists_leadsTo_of_mem
    (hstack : ∀ e ∈ stack, ∃ names, LeadsTo root names (.directory e.2))
    (hmem : (name, node) ∈ entriesAt root stack) :
    ∃ names, LeadsTo root (names ++ [name]) node := by
  cases stack with
  | nil => exact ⟨[], .here hmem⟩
  | cons e stack =>
      obtain ⟨names, hnames⟩ := hstack e List.mem_cons_self
      exact ⟨names, hnames.append hmem⟩

/-- The directories that a path leads through are met on walks from the root. -/
theorem leadsTo_of_follow
    (hstack : ∀ e ∈ stack, ∃ names, LeadsTo root names (.directory e.2))
    (h : follow root links stack steps = .ok (.directory stack')) :
    ∀ e ∈ stack', ∃ names, LeadsTo root names (.directory e.2) := by
  fun_induction follow root links stack steps with
  | case1 =>
      cases h
      exact hstack
  | case2 _ _ _ ih => exact ih hstack h
  | case3 _ _ _ _ ih => exact ih (fun e he => hstack e (List.mem_of_mem_tail he)) h
  | case4 | case5 | case6 | case7 | case9 => cases h
  | case8 _ _ _ _ _ _ _ inner hlookup ih =>
      refine ih ?_ h
      intro e he
      rcases List.mem_cons.mp he with rfl | he
      · obtain ⟨names, hnames⟩ := exists_leadsTo_of_mem hstack (IsProper.mem_of_lookup hlookup)
        exact ⟨_, hnames⟩
      · exact hstack e he
  | case10 _ _ _ _ _ _ target _ _ ih =>
      refine ih ?_ h
      split_ifs
      · simp
      · exact hstack

/-- A way that leads on goes on with what comes behind it, and one that does not is at its end. -/
theorem follow_append_cases (root : Entries) (links : ℕ) (stack : List (String × Entries))
    (steps : List String) :
    (∃ links' stack', ∀ rest, follow root links stack (steps ++ rest) =
      follow root links' stack' rest) ∨
    (∀ stack', follow root links stack steps ≠ .ok (.directory stack')) ∧
      ∃ fault, ∀ rest ≠ [], follow root links stack (steps ++ rest) = .error fault := by
  -- A step that is taken hands the alternative on; a fault stands whatever comes behind it.
  fun_induction follow root links stack steps with
  | case1 links stack => exact .inl ⟨links, stack, fun _ => rfl⟩
  | case2 links stack steps ih => simpa [follow] using ih
  | case3 links stack steps _ ih => simpa [follow] using ih
  | case4 links stack step steps hdot hdots hsize =>
      refine .inr ⟨?_, .nameTooLong, ?_⟩ <;> simp [follow, hdot, hdots, hsize]
  | case5 links stack step steps hdot hdots hsize hlookup =>
      refine .inr ⟨?_, .missing, ?_⟩ <;> simp [follow, hdot, hdots, hsize, hlookup]
  | case6 links stack step steps hdot hdots hsize bytes modified hlookup hlast =>
      obtain rfl := List.isEmpty_iff.mp hlast
      refine .inr ⟨by simp, .notDirectory, fun rest hrest => ?_⟩
      simp [follow, hdot, hdots, hsize, hlookup, hrest]
  | case7 links stack step steps hdot hdots hsize bytes modified hlookup hlast =>
      rw [List.isEmpty_iff] at hlast
      refine .inr ⟨?_, .notDirectory, ?_⟩ <;> simp [follow, hdot, hdots, hsize, hlookup, hlast]
  | case8 links stack step steps hdot hdots hsize inner hlookup ih =>
      simpa [follow, hdot, hdots, hsize, hlookup] using ih
  | case9 stack step steps hdot hdots hsize target hlookup =>
      refine .inr ⟨?_, .tooManyLinks, ?_⟩ <;> simp [follow, hdot, hdots, hsize, hlookup]
  | case10 stack step steps hdot hdots hsize target hlookup links ih =>
      simpa [follow, hdot, hdots, hsize, hlookup] using ih

/-- What leads to a directory leads on from it, also without a dot that it ends in. -/
theorem exists_follow_plainSteps {path : String}
    (h : follow root links stack (Path.steps path) = .ok (.directory stack')) :
    ∃ links', ∀ rest, follow root links stack (Path.plainSteps path ++ rest) =
      follow root links' stack' rest := by
  rcases follow_append_cases root links stack (Path.plainSteps path) with
    ⟨links', reached, hreached⟩ | ⟨hends, fault, hfault⟩
  · have hsame : reached = stack' := by
      have hnone := hreached []
      have hdot := hreached ["."]
      rw [List.append_nil] at hnone
      rcases Path.steps_cases path with hsteps | hsteps <;> rw [hsteps] at h
      · simpa [follow] using hnone.symm.trans h
      · simpa [follow] using hdot.symm.trans h
    exact ⟨links', hsame ▸ hreached⟩
  · rcases Path.steps_cases path with hsteps | hsteps <;> rw [hsteps] at h
    · exact absurd h (hends stack')
    · rw [hfault ["."] (List.cons_ne_nil _ _)] at h
      cases h

/-- What a path leads to by its last name is an entry that a walk from the root meets. -/
theorem exists_leadsTo_of_follow {place : Place} (hname : name ≠ "." ∧ name ≠ "..")
    (h : follow root links [] (steps ++ [name]) = .ok place) :
    ∃ names node, LeadsTo root (names ++ [name]) node := by
  rcases follow_append_cases root links [] steps with
    ⟨links', reached, hreached⟩ | ⟨-, fault, hfault⟩
  · have hdirectory : follow root links [] steps = .ok (.directory reached) := by
      simpa [follow] using hreached []
    have hstack := leadsTo_of_follow (by simp) hdirectory
    rw [hreached] at h
    cases hlookup : (entriesAt root reached).lookup name with
    | none =>
        by_cases hsize : maxNameBytes < name.utf8ByteSize <;>
          simp [follow, hname, hsize, hlookup] at h
    | some node =>
        obtain ⟨names, hnames⟩ := exists_leadsTo_of_mem hstack (IsProper.mem_of_lookup hlookup)
        exact ⟨names, node, hnames⟩
  · rw [hfault [name] (List.cons_ne_nil _ _)] at h
    cases h

theorem follow_of_leadsTo {bytes : ByteArray} {modified : ℤ} (links : ℕ)
    (hproper : IsProper (entriesAt root stack))
    (h : LeadsTo (entriesAt root stack) names (.file bytes modified)) :
    follow root links stack names = .ok (.file bytes modified) := by
  generalize hentries : entriesAt root stack = entries at h hproper
  generalize hnode : Node.file bytes modified = node at h
  induction h generalizing stack with
  | @here _ name _ hmem =>
      subst hnode
      have hname := hproper.isName hmem
      have hlookup := hproper.lookup_eq hmem
      rw [← hentries] at hlookup
      simp [follow, hname.ne_dot, hname.ne_dots, hname.size_le.not_gt, hlookup]
  | @inside _ inner name names _ hmem hinner ih =>
      have hname := hproper.isName hmem
      have hlookup := hproper.lookup_eq hmem
      rw [← hentries] at hlookup
      simp only [follow, hname.ne_dot, hname.ne_dots, hname.size_le.not_gt, hlookup, if_false]
      exact ih rfl (hproper.of_mem hmem) hnode

variable {t : Tree} {directory : String}

theorem directory?_eq_some_iff :
    t.directory? directory = some stack ↔ t.find directory = .ok (.directory stack) := by
  rw [directory?]
  split <;> simp_all

theorem isFile_iff {path : String} : t.isFile path = true ↔
    ∃ bytes modified, t.find path = .ok (.file bytes modified) := by
  rw [isFile]
  split <;> simp_all

theorem isProper_entriesAt (hroot : IsProper t.root) (h : t.directory? directory = some stack) :
    IsProper (entriesAt t.root stack) := by
  rw [directory?_eq_some_iff, find] at h
  split_ifs at h
  have hstack := leadsTo_of_follow (by simp) h
  cases stack with
  | nil => exact hroot
  | cons e stack =>
      obtain ⟨names, hnames⟩ := hstack e List.mem_cons_self
      exact hroot.of_leadsTo hnames

/-- A file that a walk from a directory comes to is found where the names of the walk lead to. -/
theorem find_pathOf {bytes : ByteArray} {modified : ℤ} (hroot : IsProper t.root)
    (hdirectory : t.directory? directory = some stack)
    (h : LeadsTo (entriesAt t.root stack) names (.file bytes modified))
    (hsize : (Path.pathOf directory names).utf8ByteSize ≤ maxPathBytes) :
    t.find (Path.pathOf directory names) = .ok (.file bytes modified) := by
  have hproper := isProper_entriesAt hroot hdirectory
  have hnames := hproper.isName_of_leadsTo h
  have hentryNames (name : String) (hname : name ∈ names) : Path.IsEntryName name :=
    (hnames name hname).toIsEntryName
  rw [directory?_eq_some_iff, find] at hdirectory
  split_ifs at hdirectory with hnul hempty hlong
  rw [List.contains_iff_mem] at hnul
  have hne : directory ≠ "" := by
    rintro rfl
    exact hempty rfl
  have hnul' : ¬ (Path.pathOf directory names).toList.contains '\x00' = true := by
    rw [List.contains_iff_mem]
    exact Path.notMem_pathOf hne hentryNames (by decide) hnul fun n hn => (hnames n hn).nul_notMem
  have hempty' : ¬ (Path.pathOf directory names).isEmpty = true := by
    rw [String.isEmpty_iff]
    exact Path.pathOf_ne_empty hne hentryNames
  obtain ⟨links', hreached⟩ := exists_follow_plainSteps hdirectory
  rw [find, if_neg hnul', if_neg hempty', if_neg hsize.not_gt, Path.join_pathOf hne hentryNames,
    Path.steps_pathOf (Path.join_ne_empty _ hne) hentryNames h.ne_nil, hreached]
  exact follow_of_leadsTo links' hproper h

end Tree

end VendorScreen.Files
