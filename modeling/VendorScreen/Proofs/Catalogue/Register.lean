import VendorScreen.Proofs.Catalogue
import VendorScreen.Proofs.Steps

namespace VendorScreen

/-!
# Registers

A catalogue can be kept as a register: the identifiers in the order in which they came, beside a
table of the packages under them. Packages are put in one by one, and the first one that does not
fit ends it all. Order and table stay in step, so nothing is lost when the register is read.
-/

namespace Catalogue

/-- The identifier is not empty and holds no slash of either kind. -/
def IsFileName (id : String) : Prop := id ≠ "" ∧ '/' ∉ id.toList ∧ '\\' ∉ id.toList

instance (id : String) : Decidable (IsFileName id) := inferInstanceAs (Decidable (_ ∧ _ ∧ _))

theorem isIdentifier_iff {id : String} : isIdentifier id = true ↔ IsFileName id := by
  simp [isIdentifier, IsFileName, and_assoc]

/-- The package has no usable identifier, or that of one before it. -/
def Offends (before : List ManifestPackage) (p : ManifestPackage) : Prop :=
  ¬ IsFileName p.id ∨ p.id ∈ before.map ManifestPackage.id

/-- What is said of a package that offends. A bad identifier may be repeated all the same. -/
def refusal (p : ManifestPackage) : CatalogueFault :=
  if IsFileName p.id then .repeatedIdentifier p.id else .badIdentifier p.id

/-- No package of the list offends. -/
structure IsSound (packages : List ManifestPackage) : Prop where
  named : ∀ p ∈ packages, IsFileName p.id
  nodup : (packages.map ManifestPackage.id).Nodup

section offenders

variable {before after packages : List ManifestPackage} {p : ManifestPackage}

theorem isSound_nil : IsSound [] := ⟨by simp, List.nodup_nil⟩

theorem isSound_concat_iff :
    IsSound (packages ++ [p]) ↔ IsSound packages ∧ ¬ Offends packages p := by
  constructor
  · rintro ⟨hnamed, hnodup⟩
    rw [List.map_append, List.nodup_append] at hnodup
    obtain ⟨hnodup, -, hdisjoint⟩ := hnodup
    refine ⟨⟨fun q hq => hnamed q (List.mem_append_left _ hq), hnodup⟩, ?_⟩
    rintro (hbad | hrepeated)
    · exact hbad (hnamed p (by simp))
    · exact hdisjoint p.id hrepeated p.id (by simp) rfl
  · rintro ⟨⟨hnamed, hnodup⟩, hfits⟩
    rw [Offends, not_or, not_not] at hfits
    refine ⟨?_, ?_⟩
    · intro q hq
      rcases List.mem_append.mp hq with hq | hq
      · exact hnamed q hq
      · obtain rfl := List.mem_singleton.mp hq
        exact hfits.1
    · rw [List.map_append, List.nodup_append]
      refine ⟨hnodup, List.nodup_singleton _, ?_⟩
      rintro id hid _ hlast rfl
      obtain rfl := List.mem_singleton.mp hlast
      exact hfits.2 hid

theorem IsSound.of_append (h : IsSound (before ++ after)) : IsSound before := by
  refine ⟨fun p hp => h.named p (List.mem_append_left _ hp), ?_⟩
  have hnodup := h.nodup
  rw [List.map_append] at hnodup
  exact hnodup.of_append_left

theorem IsSound.not_offends (h : IsSound (before ++ p :: after)) : ¬ Offends before p := by
  rw [List.append_cons] at h
  exact (isSound_concat_iff.mp h.of_append).2

/-- Either no package offends, or one of them is the first that does. -/
theorem isSound_or_exists_first (packages : List ManifestPackage) : IsSound packages ∨
    ∃ before p after, packages = before ++ p :: after ∧ IsSound before ∧ Offends before p := by
  induction packages using List.reverseRecOn with
  | nil => exact .inl isSound_nil
  | append_singleton packages p ih =>
      rcases ih with hsound | ⟨before, q, after, rfl, hbefore, hoffends⟩
      · by_cases hoffends : Offends packages p
        · exact .inr ⟨packages, p, [], rfl, hsound, hoffends⟩
        · exact .inl (isSound_concat_iff.mpr ⟨hsound, hoffends⟩)
      · exact .inr ⟨before, q, after ++ [p], by simp, hbefore, hoffends⟩

end offenders

end Catalogue

open Catalogue

structure Register where
  order : List String
  entries : Std.HashMap String ManifestPackage

namespace Register

def empty : Register := ⟨[], ∅⟩

/-- Puts a package in, with its paths as they are seen from `base`. That its identifier was in use
shows only when the table has taken it. -/
def insert? (base : String) (r : Register) (p : ManifestPackage) :
    Except CatalogueFault Register :=
  if !isIdentifier p.id then .error (.badIdentifier p.id)
  else
    let (wasUsed, entries) := r.entries.containsThenInsert p.id (located base p)
    if wasUsed then .error (.repeatedIdentifier p.id)
    else .ok ⟨r.order ++ [p.id], entries⟩

/-- The register of some packages. -/
def ofPackages (base : String) (packages : List ManifestPackage) :
    Except CatalogueFault Register :=
  packages.foldlM (insert? base) empty

/-- The packages under the identifiers, in their order. An identifier without one is passed over. -/
def listed (r : Register) : List ManifestPackage := r.order.filterMap fun id => r.entries[id]?

/-- The register holds the packages, each of them once in the order and once in the table. -/
structure Holds (r : Register) (packages : List ManifestPackage) : Prop where
  order_eq : r.order = packages.map ManifestPackage.id
  nodup : r.order.Nodup
  mem_iff : ∀ id, id ∈ r.entries ↔ id ∈ r.order
  getElem?_eq : ∀ p ∈ packages, r.entries[p.id]? = some p

variable {base : String} {r r' : Register} {packages before after : List ManifestPackage}
  {p : ManifestPackage}

theorem insert?_eq (base : String) (r : Register) (p : ManifestPackage) : r.insert? base p =
    if !isIdentifier p.id then .error (.badIdentifier p.id)
    else if r.entries.contains p.id then .error (.repeatedIdentifier p.id)
    else .ok ⟨r.order ++ [p.id], r.entries.insert p.id (located base p)⟩ := by
  simp only [insert?, Std.HashMap.containsThenInsert_fst, Std.HashMap.containsThenInsert_snd]

theorem holds_empty : empty.Holds [] :=
  ⟨rfl, List.nodup_nil, by simp [empty], by simp⟩

theorem Holds.listed_eq (h : r.Holds packages) : r.listed = packages := by
  rw [listed, h.order_eq, List.filterMap_map]
  calc
    _ = packages.filterMap some := List.filterMap_congr fun p hp => h.getElem?_eq p hp
    _ = packages := List.filterMap_some

theorem Holds.getElem?_eq_find? (h : r.Holds packages) (id : String) :
    r.entries[id]? = packages.find? fun p => p.id = id := by
  cases hfind : packages.find? fun p => p.id = id with
  | some p =>
      have hid : p.id = id := by simpa using List.find?_some hfind
      rw [← hid, h.getElem?_eq p (List.mem_of_find?_eq_some hfind)]
  | none =>
      apply Std.HashMap.getElem?_eq_none
      rw [h.mem_iff, h.order_eq]
      intro hid
      obtain ⟨p, hp, hpid⟩ := List.mem_map.mp hid
      exact List.find?_eq_none.mp hfind p hp (decide_eq_true hpid)

/-- The step that keeps order and table together. -/
theorem Holds.insert (h : r.Holds packages) (base : String)
    (hfresh : p.id ∉ packages.map ManifestPackage.id) :
    Holds ⟨r.order ++ [p.id], r.entries.insert p.id (located base p)⟩
      (packages ++ [located base p]) := by
  constructor
  · simp [h.order_eq]
  · rw [List.nodup_append]
    refine ⟨h.nodup, List.nodup_singleton _, ?_⟩
    rintro id hid _ hlast rfl
    obtain rfl := List.mem_singleton.mp hlast
    exact hfresh (h.order_eq ▸ hid)
  · intro id
    rw [Std.HashMap.mem_insert, h.mem_iff, beq_iff_eq, List.mem_append, List.mem_singleton,
      or_comm, eq_comm]
  · intro q hq
    rw [Std.HashMap.getElem?_insert]
    rcases List.mem_append.mp hq with hq | hq
    · -- The table may not lose what stood in it before.
      have hother : p.id ≠ q.id := fun hid => hfresh (hid ▸ List.mem_map_of_mem hq)
      rw [if_neg (by simpa using hother), h.getElem?_eq q hq]
    · obtain rfl := List.mem_singleton.mp hq
      simp

/-- The identifiers of packages that are seen from another place are what they were. -/
theorem map_id_map_located (base : String) (packages : List ManifestPackage) :
    (packages.map (located base)).map ManifestPackage.id = packages.map ManifestPackage.id := by
  rw [List.map_map]
  exact List.map_congr_left fun p _ => id_located base p

theorem insert?_of_not_offends (h : r.Holds (packages.map (located base)))
    (hfits : ¬ Offends packages p) : r.insert? base p =
      .ok ⟨r.order ++ [p.id], r.entries.insert p.id (located base p)⟩ := by
  rw [Offends, not_or, not_not] at hfits
  have hunused : ¬ r.entries.contains p.id = true := by
    rw [← Std.HashMap.mem_iff_contains, h.mem_iff, h.order_eq, map_id_map_located]
    exact hfits.2
  rw [insert?_eq, isIdentifier_iff.mpr hfits.1, Bool.not_true, if_neg Bool.false_ne_true,
    if_neg hunused]

theorem insert?_of_offends (h : r.Holds (packages.map (located base)))
    (hoffends : Offends packages p) : r.insert? base p = .error (refusal p) := by
  by_cases hname : IsFileName p.id
  · have hrepeated := hoffends.resolve_left (not_not.mpr hname)
    have hused : r.entries.contains p.id = true := by
      rw [← Std.HashMap.mem_iff_contains, h.mem_iff, h.order_eq, map_id_map_located]
      exact hrepeated
    rw [insert?_eq, isIdentifier_iff.mpr hname, Bool.not_true, if_neg Bool.false_ne_true,
      if_pos hused, refusal, if_pos hname]
  · have hbad : (!isIdentifier p.id) = true := by
      rw [Bool.not_eq_true', ← Bool.not_eq_true, isIdentifier_iff]
      exact hname
    rw [insert?_eq, if_pos hbad, refusal, if_neg hname]

theorem ofPackages_append : ofPackages base (before ++ after) =
    ofPackages base before >>= fun r => after.foldlM (insert? base) r := by
  rw [ofPackages, List.foldlM_append]
  rfl

theorem exists_ofPackages_of_isSound (base : String) (h : IsSound packages) :
    ∃ r, ofPackages base packages = .ok r ∧ r.Holds (packages.map (located base)) := by
  induction packages using List.reverseRecOn with
  | nil => exact ⟨empty, rfl, holds_empty⟩
  | append_singleton packages p ih =>
      obtain ⟨hsound, hfits⟩ := isSound_concat_iff.mp h
      obtain ⟨r, hr, hholds⟩ := ih hsound
      refine ⟨⟨r.order ++ [p.id], r.entries.insert p.id (located base p)⟩, ?_, ?_⟩
      · rw [ofPackages_append, hr]
        simp only [bind, Except.bind, List.foldlM_cons, insert?_of_not_offends hholds hfits,
          List.foldlM_nil]
        rfl
      · rw [List.map_append]
        apply hholds.insert base
        rw [map_id_map_located]
        exact fun hrepeated => hfits (.inr hrepeated)

theorem ofPackages_of_offends (base : String) (h : IsSound before) (hoffends : Offends before p) :
    ofPackages base (before ++ p :: after) = .error (refusal p) := by
  obtain ⟨r, hr, hholds⟩ := exists_ofPackages_of_isSound base h
  rw [ofPackages_append, hr]
  simp only [bind, Except.bind, List.foldlM_cons, insert?_of_offends hholds hoffends]

/-- A register that is filled on from one that holds some packages lists those, and behind them what
a catalogue takes in after their identifiers. -/
theorem map_listed_foldlM {done : List ManifestPackage} {taken : List String} (h : r.Holds done)
    (htaken : ∀ id, id ∈ taken ↔ id ∈ r.order) :
    (packages.foldlM (insert? base) r).map listed =
      (take base taken packages).map (done ++ ·) := by
  induction packages generalizing r done taken with
  | nil => simp [take, pure, Except.pure, Except.map, h.listed_eq]
  | cons p rest ih =>
      have hcontains : r.entries.contains p.id = taken.contains p.id := by
        rw [Bool.eq_iff_iff, ← Std.HashMap.mem_iff_contains, h.mem_iff, ← htaken]
        simp
      rw [List.foldlM_cons, take, insert?_eq, hcontains]
      split_ifs with hbad hrepeated
      · rfl
      · rfl
      · have hfresh : p.id ∉ done.map ManifestPackage.id := by
          rw [← h.order_eq, ← htaken]
          simpa using hrepeated
        have htaken' (id : String) : id ∈ p.id :: taken ↔ id ∈ r.order ++ [p.id] := by
          rw [List.mem_cons, htaken, List.mem_append, List.mem_singleton, or_comm]
        have hfilled := ih (h.insert base hfresh) htaken'
        simp only [bind, Except.bind, hfilled]
        cases take base (p.id :: taken) rest <;> simp [Except.map]

end Register

namespace Catalogue

variable {base id : String} {packages before after : List ManifestPackage} {p : ManifestPackage}
  {fault : CatalogueFault} {c : Catalogue} {r : Register}

/-- A catalogue holds what its register lists. -/
theorem ofPackages_eq (base : String) (packages : List ManifestPackage) :
    ofPackages base packages =
      (Register.ofPackages base packages).map fun r => ⟨r.listed, none⟩ := by
  have hlisted : (Register.ofPackages base packages).map Register.listed =
      take base [] packages := by
    have hnone (id : String) : id ∈ [] ↔ id ∈ Register.empty.order := Iff.rfl
    rw [Register.ofPackages, Register.map_listed_foldlM Register.holds_empty hnone]
    cases take base [] packages <;> rfl
  rw [ofPackages, ← hlisted]
  cases Register.ofPackages base packages <;> rfl

theorem exists_ofPackages_of_isSound (base : String) (h : IsSound packages) :
    ∃ r, Register.ofPackages base packages = .ok r ∧ r.Holds (packages.map (located base)) ∧
      ofPackages base packages = .ok ⟨packages.map (located base), none⟩ := by
  obtain ⟨r, hr, hholds⟩ := Register.exists_ofPackages_of_isSound base h
  refine ⟨r, hr, hholds, ?_⟩
  rw [ofPackages_eq, hr, ← hholds.listed_eq]
  rfl

theorem ofPackages_of_offends (base : String) (h : IsSound before) (hoffends : Offends before p) :
    ofPackages base (before ++ p :: after) = .error (refusal p) := by
  rw [ofPackages_eq, Register.ofPackages_of_offends base h hoffends]
  rfl

theorem ofPackages_eq_error_iff : ofPackages base packages = .error fault ↔
    ∃ before p after, packages = before ++ p :: after ∧ IsSound before ∧ Offends before p ∧
      fault = refusal p := by
  constructor
  · intro h
    rcases isSound_or_exists_first packages with hsound | ⟨before, p, after, rfl, hsound, hoffends⟩
    · obtain ⟨-, -, -, hok⟩ := exists_ofPackages_of_isSound base hsound
      rw [hok] at h
      cases h
    · rw [ofPackages_of_offends base hsound hoffends] at h
      exact ⟨before, p, after, rfl, hsound, hoffends, (Except.error.inj h).symm⟩
  · rintro ⟨before, p, after, rfl, hsound, hoffends, rfl⟩
    exact ofPackages_of_offends base hsound hoffends

theorem isSound_of_ofPackages (h : ofPackages base packages = .ok c) : IsSound packages := by
  rcases isSound_or_exists_first packages with hsound | ⟨before, p, after, rfl, hsound, hoffends⟩
  · exact hsound
  · rw [ofPackages_of_offends base hsound hoffends] at h
    cases h

theorem not_isSound_iff : ¬ IsSound packages ↔
    ∃ before p after, packages = before ++ p :: after ∧ Offends before p := by
  constructor
  · intro h
    obtain ⟨before, p, after, hpackages, -, hoffends⟩ :=
      (isSound_or_exists_first packages).resolve_left h
    exact ⟨before, p, after, hpackages, hoffends⟩
  · rintro ⟨before, p, after, rfl, hoffends⟩ hsound
    exact hsound.not_offends hoffends

theorem find?_eq_none (h : id ∉ c.packages.map ManifestPackage.id) : c.find? id = none := by
  rw [find?, List.find?_eq_none]
  intro p hp hid
  exact h (of_decide_eq_true hid ▸ List.mem_map_of_mem hp)

theorem answer_of_not_listed {α : Type} (h : id ∉ c.packages.map ManifestPackage.id)
    (value : ManifestPackage → Except HostFault α) :
    c.answer id value = .error (.packageNotFound id) := by
  rw [answer, find?_eq_none h]

/-- What a declared name stands for in the package `id`. -/
def StandsFor (id name className : String) : Prop :=
  className = if ['.'] <+: name.toList then id ++ name else name

theorem standsFor_qualified (id name : String) : StandsFor id name (qualified id name) := by
  rw [StandsFor, qualified]
  cases name.toList with
  | nil => simp
  | cons c rest => simp [eq_comm]

/-- What the host says about the packages, whose paths are seen from `base`. -/
structure SpeaksFor (files : Files.Tree) (base : String) (packages : List ManifestPackage)
    (host : Host) : Prop where
  installed : host.installed = .ok (packages.map ManifestPackage.installed)
  components : ∀ p ∈ packages, ∃ found, host.components p.id = .ok found ∧
    List.Forall₂ (fun name component => component.owner = p.id ∧
        StandsFor p.id name component.className)
      (p.services ++ p.activities ++ p.receivers ++ p.providers) found
  archive : ∀ p ∈ packages, host.archive p.id =
    readArchive files { p with archive := p.archive.map (Files.Path.join base) }
  icon : ∀ p ∈ packages, host.icon p.id = readIcon files (p.icon.map (Files.Path.join base))
  unlisted : ∀ id ∉ packages.map ManifestPackage.id,
    host.components id = .error (.packageNotFound id) ∧
    host.archive id = .error (.packageNotFound id) ∧
    host.icon id = .error (.packageNotFound id)

theorem speaksFor_host (h : IsSound packages) (files : Files.Tree) :
    SpeaksFor files base packages (host ⟨packages.map (located base), none⟩ files) := by
  have hdistinct : IsDistinct ⟨packages.map (located base), none⟩ := by
    rw [IsDistinct, Register.map_id_map_located]
    exact h.nodup
  have hanswer {α : Type} (value : ManifestPackage → Except HostFault α) (p : ManifestPackage)
      (hp : p ∈ packages) : answer ⟨packages.map (located base), none⟩ p.id value =
        value (located base p) :=
    hdistinct.answer_eq (List.mem_map_of_mem hp) value
  constructor
  · rw [host, List.map_map]
    rfl
  · intro p hp
    refine ⟨componentsOf p, hanswer _ p hp, ?_⟩
    rw [componentsOf, List.forall₂_map_right_iff, List.forall₂_same]
    exact fun name _ => ⟨rfl, standsFor_qualified p.id name⟩
  · exact fun p hp => hanswer _ p hp
  · exact fun p hp => hanswer _ p hp
  · intro id hid
    rw [← Register.map_id_map_located base] at hid
    exact ⟨answer_of_not_listed hid _, answer_of_not_listed hid _, answer_of_not_listed hid _⟩

/-- Packages make a catalogue exactly if none of them has a bad identifier or that of an earlier one,
and otherwise the first that does is named, for a bad identifier first. The register behind the
catalogue has each identifier once in its order, exactly those in its table, and gives back all
packages in their order; the host that answers from the catalogue knows them and no others. -/
theorem packages_kept_in_step (base : String) (packages : List ManifestPackage) :
    ((∃ fault, ofPackages base packages = .error fault) ↔
      ∃ before p after, packages = before ++ p :: after ∧ Offends before p) ∧
    (∀ fault, ofPackages base packages = .error fault ↔
      ∃ before p after, packages = before ++ p :: after ∧ IsSound before ∧ Offends before p ∧
        fault = refusal p) ∧
    (∀ path, Files.Path.isAbsolute path = true → Files.Path.join base path = path) ∧
    ∀ c, ofPackages base packages = .ok c →
      ∃ r, Register.ofPackages base packages = .ok r ∧
        r.order = packages.map ManifestPackage.id ∧ r.order.Nodup ∧
        (∀ id, id ∈ r.entries ↔ id ∈ r.order) ∧
        r.listed = packages.map (located base) ∧
        c.packages = r.listed ∧ (∀ id, c.find? id = r.entries[id]?) ∧
        ∀ files, SpeaksFor files base packages (c.host files) := by
  refine ⟨?_, fun fault => ofPackages_eq_error_iff, fun path hroot => if_pos hroot, ?_⟩
  · rw [← not_isSound_iff]
    constructor
    · rintro ⟨fault, hfault⟩ hsound
      obtain ⟨-, -, -, hok⟩ := exists_ofPackages_of_isSound base hsound
      rw [hok] at hfault
      cases hfault
    · intro hunsound
      obtain ⟨before, p, after, rfl, hsound, hoffends⟩ :=
        (isSound_or_exists_first packages).resolve_left hunsound
      exact ⟨refusal p, ofPackages_of_offends base hsound hoffends⟩
  · intro c hc
    have hsound := isSound_of_ofPackages hc
    obtain ⟨r, hr, hholds, hok⟩ := exists_ofPackages_of_isSound base hsound
    obtain rfl := Except.ok.inj (hok.symm.trans hc)
    refine ⟨r, hr, ?_, hholds.nodup, hholds.mem_iff, hholds.listed_eq, hholds.listed_eq.symm, ?_,
      fun files => speaksFor_host hsound files⟩
    · rw [hholds.order_eq, Register.map_id_map_located]
    · exact fun id => (hholds.getElem?_eq_find? id).symm

/-- A package with short names and a relative path, and one whose archive has an absolute path. -/
def mixedPackages : List ManifestPackage :=
  [⟨⟨"a.b", "", false, 0, []⟩, [".Sync"], [], [], ["com.umeng.Provider"], some "x.apk", none⟩,
    ⟨⟨"c.d", "", false, 0, []⟩, [], [], [], [], some "/y.apk", none⟩]

def mixedCatalogue : Catalogue :=
  ⟨[⟨⟨"a.b", "", false, 0, []⟩, [".Sync"], [], [], ["com.umeng.Provider"], some "/m/x.apk", none⟩,
    ⟨⟨"c.d", "", false, 0, []⟩, [], [], [], [], some "/y.apk", none⟩], none⟩

theorem packages_kept_in_step_mixed :
    ofPackages "/m" mixedPackages = .ok mixedCatalogue ∧
    Files.Path.isAbsolute "/y.apk" = true ∧
    ∃ r, Register.ofPackages "/m" mixedPackages = .ok r ∧ r.order = ["a.b", "c.d"] ∧
      (∀ id, id ∈ r.entries ↔ id ∈ r.order) ∧ r.listed = mixedCatalogue.packages ∧
      ∀ files, SpeaksFor files "/m" mixedPackages (mixedCatalogue.host files) := by
  have htaken : ofPackages "/m" mixedPackages = .ok mixedCatalogue := by rfl
  obtain ⟨-, -, -, hkept⟩ := packages_kept_in_step "/m" mixedPackages
  obtain ⟨r, hr, horder, -, hmem, -, hlisted, -, hspeaks⟩ := hkept mixedCatalogue htaken
  exact ⟨htaken, rfl, r, hr, horder, hmem, hlisted.symm, hspeaks⟩

end Catalogue

end VendorScreen
