import Mathlib
import VendorScreen.Files.Path

namespace VendorScreen.Files.Path

/-!
# Paths and the names they lead by

Paths are in a linear order, name by name. A path that is joined from names can be taken apart into
them again, as long as none of them is empty or holds a slash.
-/

/-! ## Order -/

section rows

variable {α : Type} [DecidableEq α] {le : α → α → Bool}

/-- Rows are compared at the first place where they differ, the shorter one first. -/
def rowLe (le : α → α → Bool) : List α → List α → Bool
  | [], _ => true
  | _ :: _, [] => false
  | a :: s, b :: t => if a = b then rowLe le s t else le a b

theorem rowLe_total (h : ∀ a b, le a b = true ∨ le b a = true) (s t : List α) :
    rowLe le s t = true ∨ rowLe le t s = true := by
  induction s generalizing t with
  | nil => exact .inl rfl
  | cons a s ih =>
      cases t with
      | nil => exact .inr rfl
      | cons b t =>
          by_cases hab : a = b
          · subst hab
            simpa [rowLe] using ih t
          · simpa [rowLe, hab, Ne.symm hab] using h a b

theorem rowLe_antisymm (h : ∀ a b, le a b = true → le b a = true → a = b) {s t : List α}
    (hst : rowLe le s t = true) (hts : rowLe le t s = true) : s = t := by
  induction s generalizing t with
  | nil =>
      cases t with
      | nil => rfl
      | cons b t => cases hts
  | cons a s ih =>
      cases t with
      | nil => cases hst
      | cons b t =>
          by_cases hab : a = b
          · subst hab
            rw [rowLe, if_pos rfl] at hst hts
            rw [ih hst hts]
          · rw [rowLe, if_neg hab] at hst
            rw [rowLe, if_neg (Ne.symm hab)] at hts
            exact absurd (h a b hst hts) hab

theorem rowLe_trans (hanti : ∀ a b, le a b = true → le b a = true → a = b)
    (htrans : ∀ a b c, le a b = true → le b c = true → le a c = true) {s t u : List α}
    (hst : rowLe le s t = true) (htu : rowLe le t u = true) : rowLe le s u = true := by
  induction s generalizing t u with
  | nil => rfl
  | cons a s ih =>
      cases t with
      | nil => cases hst
      | cons b t =>
          cases u with
          | nil => cases htu
          | cons c u =>
              by_cases hab : a = b
              · subst hab
                by_cases hac : a = c
                · subst hac
                  rw [rowLe, if_pos rfl] at hst htu ⊢
                  exact ih hst htu
                · rw [rowLe, if_neg hac] at htu ⊢
                  exact htu
              · rw [rowLe, if_neg hab] at hst
                by_cases hbc : b = c
                · subst hbc
                  rw [rowLe, if_neg hab]
                  exact hst
                · rw [rowLe, if_neg hbc] at htu
                  have hac : a ≠ c := fun h => hab (hanti a b hst (h ▸ htu))
                  rw [rowLe, if_neg hac]
                  exact htrans a b c hst htu

end rows

theorem textLe_eq (s t : List Char) :
    textLe s t = rowLe (fun a b => decide (a.toNat ≤ b.toNat)) s t := by
  induction s generalizing t with
  | nil => rfl
  | cons a s ih =>
      cases t with
      | nil => rfl
      | cons b t =>
          by_cases hab : a = b
          · rw [textLe, rowLe, if_pos hab, if_pos hab, ih]
          · have hne : a.toNat ≠ b.toNat := fun h => hab (Char.toNat_inj.mp h)
            rw [textLe, rowLe, if_neg hab, if_neg hab, decide_eq_decide]
            omega

theorem namesLe_eq (s t : List String) :
    namesLe s t = rowLe (fun a b => textLe a.toList b.toList) s t := by
  induction s generalizing t with
  | nil => rfl
  | cons a s ih =>
      cases t with
      | nil => rfl
      | cons b t => rw [namesLe, rowLe, ih]

theorem textLe_total (s t : List Char) : textLe s t = true ∨ textLe t s = true := by
  simp only [textLe_eq]
  apply rowLe_total
  intro a b
  simpa using Nat.le_total a.toNat b.toNat

theorem textLe_antisymm {s t : List Char} (hst : textLe s t = true) (hts : textLe t s = true) :
    s = t := by
  rw [textLe_eq] at hst hts
  apply rowLe_antisymm _ hst hts
  intro a b hab hba
  exact Char.toNat_inj.mp (Nat.le_antisymm (of_decide_eq_true hab) (of_decide_eq_true hba))

theorem textLe_trans {s t u : List Char} (hst : textLe s t = true) (htu : textLe t u = true) :
    textLe s u = true := by
  rw [textLe_eq] at hst htu ⊢
  apply rowLe_trans _ _ hst htu
  · intro a b hab hba
    exact Char.toNat_inj.mp (Nat.le_antisymm (of_decide_eq_true hab) (of_decide_eq_true hba))
  · intro a b c hab hbc
    exact decide_eq_true ((of_decide_eq_true hab).trans (of_decide_eq_true hbc))

theorem namesLe_total (s t : List String) : namesLe s t = true ∨ namesLe t s = true := by
  simp only [namesLe_eq]
  exact rowLe_total (fun a b => textLe_total _ _) s t

theorem namesLe_antisymm {s t : List String} (hst : namesLe s t = true)
    (hts : namesLe t s = true) : s = t := by
  rw [namesLe_eq] at hst hts
  exact rowLe_antisymm (fun a b hab hba => String.toList_inj.mp (textLe_antisymm hab hba)) hst hts

theorem namesLe_trans {s t u : List String} (hst : namesLe s t = true)
    (htu : namesLe t u = true) : namesLe s u = true := by
  rw [namesLe_eq] at hst htu ⊢
  apply rowLe_trans _ _ hst htu
  · exact fun a b hab hba => String.toList_inj.mp (textLe_antisymm hab hba)
  · exact fun a b c => textLe_trans

/-! ## Joined paths -/

/-- A name that an entry of a directory may have. -/
structure IsEntryName (name : String) : Prop where
  ne_empty : name ≠ ""
  slash_notMem : '/' ∉ name.toList

/-- The path that leads on from `base` by some names. -/
def pathOf (base : String) (names : List String) : String := names.foldl join base

/-- What stands between a path and the name that is joined to it. -/
def separator (base : String) : List Char := if base.toList.getLast? = some '/' then [] else ['/']

variable {base base' path name : String} {names names' : List String} {cs ds : List Char}

theorem toList_ne_nil (h : path ≠ "") : path.toList ≠ [] := by
  rwa [Ne, String.toList_eq_nil_iff]

theorem IsEntryName.not_isAbsolute (h : IsEntryName name) : ¬ isAbsolute name = true := by
  rw [isAbsolute, decide_eq_true_iff]
  exact fun hroot => h.slash_notMem (List.mem_of_mem_head? hroot)

theorem IsEntryName.getLast?_ne (h : IsEntryName name) : name.toList.getLast? ≠ some '/' :=
  fun hlast => h.slash_notMem (List.mem_of_getLast? hlast)

theorem head?_append_of_ne_nil (h : cs ≠ []) : (cs ++ ds).head? = cs.head? := by
  cases cs with
  | nil => exact absurd rfl h
  | cons c cs => rfl

theorem toList_join (hbase : base ≠ "") (hpath : ¬ isAbsolute path = true) :
    (join base path).toList = base.toList ++ (separator base ++ path.toList) := by
  rw [join, if_neg hpath, separator]
  cases hlast : base.toList.getLast? with
  | none => exact absurd (List.getLast?_eq_none_iff.mp hlast) (toList_ne_nil hbase)
  | some c =>
      by_cases hc : c = '/'
      · subst hc
        simp
      · simp [hc]

@[simp] theorem join_empty (path : String) : join "" path = path := by simp [join]

theorem join_ne_empty (base : String) (h : path ≠ "") : join base path ≠ "" := by
  by_cases hroot : isAbsolute path = true
  · rwa [join, if_pos hroot]
  · by_cases hbase : base = ""
    · subst hbase
      simpa [join, hroot] using h
    · intro hempty
      have hjoin := toList_join hbase hroot
      rw [hempty] at hjoin
      exact toList_ne_nil hbase (List.append_eq_nil_iff.mp hjoin.symm).1

theorem separator_join (hbase : base ≠ "") (h : IsEntryName name) :
    separator (join base name) = ['/'] := by
  apply if_neg
  rw [toList_join hbase h.not_isAbsolute, ← List.append_assoc,
    List.getLast?_append_of_ne_nil _ (toList_ne_nil h.ne_empty)]
  exact h.getLast?_ne

/-- A path keeps its names when what it leads on from is seen from elsewhere. -/
theorem join_join (hpath : path ≠ "") (h : IsEntryName name) :
    join base (join path name) = join (join base path) name := by
  have hhead : (join path name).toList.head? = path.toList.head? := by
    rw [toList_join hpath h.not_isAbsolute, head?_append_of_ne_nil (toList_ne_nil hpath)]
  by_cases hroot : isAbsolute path = true
  · have hroot' : isAbsolute (join path name) = true := by rwa [isAbsolute, hhead]
    rw [join, if_pos hroot', show join base path = path from if_pos hroot]
  · have hroot' : ¬ isAbsolute (join path name) = true := by rwa [isAbsolute, hhead]
    by_cases hbase : base = ""
    · subst hbase
      simp [join, hroot]
    · have hsame : separator (join base path) = separator path := by
        rw [separator, separator, toList_join hbase hroot, ← List.append_assoc,
          List.getLast?_append_of_ne_nil _ (toList_ne_nil hpath)]
      apply String.toList_inj.mp
      rw [toList_join hbase hroot', toList_join hpath h.not_isAbsolute,
        toList_join (join_ne_empty base hpath) h.not_isAbsolute, toList_join hbase hroot, hsame]
      simp only [List.append_assoc]

theorem pathOf_ne_empty (hbase : base ≠ "") (hnames : ∀ name ∈ names, IsEntryName name) :
    pathOf base names ≠ "" := by
  induction names generalizing base with
  | nil => exact hbase
  | cons name names ih =>
      have hname := hnames name List.mem_cons_self
      apply ih (join_ne_empty base hname.ne_empty)
      exact fun n hn => hnames n (List.mem_cons_of_mem _ hn)

/-- What stands in a joined path stands in one of its parts, slashes apart. -/
theorem notMem_pathOf {c : Char} (hbase : base ≠ "") (hnames : ∀ name ∈ names, IsEntryName name)
    (hslash : c ≠ '/') (hc : c ∉ base.toList) (hcs : ∀ name ∈ names, c ∉ name.toList) :
    c ∉ (pathOf base names).toList := by
  induction names generalizing base with
  | nil => exact hc
  | cons name names ih =>
      have hname := hnames name List.mem_cons_self
      have hseparator : c ∉ separator base := by
        rw [separator]
        split_ifs <;> simp [hslash]
      apply ih (join_ne_empty base hname.ne_empty)
      · exact fun n hn => hnames n (List.mem_cons_of_mem _ hn)
      · rw [toList_join hbase hname.not_isAbsolute]
        simp only [List.mem_append, not_or]
        exact ⟨hc, hseparator, hcs name List.mem_cons_self⟩
      · exact fun n hn => hcs n (List.mem_cons_of_mem _ hn)

theorem join_pathOf (hpath : path ≠ "") (hnames : ∀ name ∈ names, IsEntryName name) :
    join base (pathOf path names) = pathOf (join base path) names := by
  induction names generalizing path with
  | nil => rfl
  | cons name names ih =>
      have hname := hnames name List.mem_cons_self
      calc
        _ = pathOf (join base (join path name)) names :=
          ih (join_ne_empty path hname.ne_empty) fun n hn => hnames n (List.mem_cons_of_mem _ hn)
        _ = pathOf (join (join base path) name) names := by rw [join_join hpath hname]

theorem toList_pathOf (hbase : base ≠ "") (hnames : ∀ name ∈ names, IsEntryName name)
    (hne : names ≠ []) : (pathOf base names).toList =
      base.toList ++ (separator base ++ ['/'].intercalate (names.map String.toList)) := by
  induction names generalizing base with
  | nil => exact absurd rfl hne
  | cons name rest ih =>
      have hname := hnames name List.mem_cons_self
      have hjoin := toList_join hbase hname.not_isAbsolute
      cases rest with
      | nil => simpa [pathOf] using hjoin
      | cons next rest =>
          have hrest := ih (join_ne_empty base hname.ne_empty)
            (fun n hn => hnames n (List.mem_cons_of_mem _ hn)) (List.cons_ne_nil _ _)
          rw [separator_join hbase hname, hjoin] at hrest
          rw [pathOf, List.foldl_cons, ← pathOf, hrest]
          simp [List.intercalate_cons_cons]

/-- Different names lead to different paths. -/
theorem pathOf_injective (hbase : base ≠ "") (hnames : ∀ name ∈ names, IsEntryName name)
    (hnames' : ∀ name ∈ names', IsEntryName name) (hne : names ≠ []) (hne' : names' ≠ [])
    (h : pathOf base names = pathOf base names') : names = names' := by
  have hlists : ['/'].intercalate (names.map String.toList) =
      ['/'].intercalate (names'.map String.toList) := by
    have hpaths := congrArg String.toList h
    rw [toList_pathOf hbase hnames hne, toList_pathOf hbase hnames' hne'] at hpaths
    exact List.append_cancel_left (List.append_cancel_left hpaths)
  have hsplit {ns : List String} (hns : ∀ name ∈ ns, IsEntryName name) (hne : ns ≠ []) :
      (['/'].intercalate (ns.map String.toList)).splitOn '/' = ns.map String.toList := by
    apply List.splitOn_intercalate
    · intro l hl
      obtain ⟨name, hname, rfl⟩ := List.mem_map.mp hl
      exact (hns name hname).slash_notMem
    · simpa using hne
  have hmaps : names.map String.toList = names'.map String.toList := by
    rw [← hsplit hnames hne, hlists, hsplit hnames' hne']
  exact List.map_injective_iff.mpr (fun _ _ => String.toList_inj.mp) hmaps

/-! ## Steps -/

theorem pieces_of_slash_notMem (h : '/' ∉ cs) : pieces cs = [cs] := by
  induction cs with
  | nil => rfl
  | cons c cs ih =>
      rw [List.mem_cons, not_or] at h
      rw [pieces, if_neg (Ne.symm h.1), ih h.2]

theorem pieces_ne_nil (cs : List Char) : pieces cs ≠ [] := by
  cases cs with
  | nil => exact List.cons_ne_nil _ _
  | cons c cs =>
      rw [pieces]
      split_ifs
      · exact List.cons_ne_nil _ _
      · split <;> exact List.cons_ne_nil _ _

theorem pieces_append_slash (cs ds : List Char) :
    pieces (cs ++ '/' :: ds) = pieces cs ++ pieces ds := by
  induction cs with
  | nil => simp [pieces]
  | cons c cs ih =>
      rw [List.cons_append, pieces, pieces, ih]
      obtain ⟨piece, others, hpieces⟩ := List.exists_cons_of_ne_nil (pieces_ne_nil cs)
      by_cases hc : c = '/' <;> simp [hc, hpieces]

/-- The steps of a path, whatever it ends in. -/
def plainSteps (path : String) : List String :=
  ((pieces path.toList).filter (· ≠ [])).map String.ofList

theorem steps_cases (path : String) : steps path = plainSteps path ∨
    steps path = plainSteps path ++ ["."] := by
  rw [steps]
  split_ifs
  · exact .inr rfl
  · exact .inl rfl

theorem plainSteps_join (hbase : base ≠ "") (h : IsEntryName name) :
    plainSteps (join base name) = plainSteps base ++ [name] := by
  have hpieces : pieces name.toList = [name.toList] := pieces_of_slash_notMem h.slash_notMem
  have hname : (pieces name.toList).filter (· ≠ []) = [name.toList] := by
    rw [hpieces]
    simpa using toList_ne_nil h.ne_empty
  rw [plainSteps, plainSteps, toList_join hbase h.not_isAbsolute, separator]
  split_ifs with hlast
  · obtain ⟨front, hfront⟩ : ∃ front, base.toList = front ++ ['/'] :=
      ⟨_, (List.dropLast_append_getLast? _ hlast).symm⟩
    rw [hfront, List.nil_append, List.append_assoc, List.singleton_append, pieces_append_slash,
      pieces_append_slash, List.filter_append, hname]
    simp [pieces]
  · rw [List.singleton_append, pieces_append_slash, List.filter_append, hname]
    simp

theorem plainSteps_pathOf (hbase : base ≠ "") (hnames : ∀ name ∈ names, IsEntryName name) :
    plainSteps (pathOf base names) = plainSteps base ++ names := by
  induction names generalizing base with
  | nil => simp [pathOf]
  | cons name names ih =>
      have hname := hnames name List.mem_cons_self
      have hrest := ih (join_ne_empty base hname.ne_empty)
        fun n hn => hnames n (List.mem_cons_of_mem _ hn)
      rw [plainSteps_join hbase hname, List.append_assoc, List.singleton_append] at hrest
      exact hrest

theorem getLast?_pathOf (hbase : base ≠ "") (hnames : ∀ name ∈ names, IsEntryName name)
    (hne : names ≠ []) : (pathOf base names).toList.getLast? ≠ some '/' := by
  obtain ⟨front, name, rfl⟩ := (List.eq_nil_or_concat' names).resolve_left hne
  have hname := hnames name (by simp)
  have hfront : pathOf base front ≠ "" :=
    pathOf_ne_empty hbase fun n hn => hnames n (List.mem_append_left _ hn)
  rw [pathOf, List.foldl_append, List.foldl_cons, List.foldl_nil, ← pathOf,
    toList_join hfront hname.not_isAbsolute, ← List.append_assoc,
    List.getLast?_append_of_ne_nil _ (toList_ne_nil hname.ne_empty)]
  exact hname.getLast?_ne

theorem steps_pathOf (hbase : base ≠ "") (hnames : ∀ name ∈ names, IsEntryName name)
    (hne : names ≠ []) : steps (pathOf base names) = plainSteps base ++ names := by
  rw [steps, if_neg (getLast?_pathOf hbase hnames hne), ← plainSteps_pathOf hbase hnames]
  rfl

theorem exists_steps_join (base : String) (h : IsEntryName name) :
    ∃ front, steps (join base name) = front ++ [name] := by
  by_cases hbase : base = ""
  · subst hbase
    refine ⟨[], ?_⟩
    have hpieces : pieces name.toList = [name.toList] := pieces_of_slash_notMem h.slash_notMem
    have hlast : ¬ name.toList.getLast? = some '/' := h.getLast?_ne
    simp [steps, hlast, hpieces, h.ne_empty]
  · have hnames : ∀ n ∈ [name], IsEntryName n := by simpa using h
    refine ⟨plainSteps base, ?_⟩
    rw [← steps_pathOf hbase hnames (List.cons_ne_nil name []), pathOf, List.foldl_cons,
      List.foldl_nil]

end VendorScreen.Files.Path
