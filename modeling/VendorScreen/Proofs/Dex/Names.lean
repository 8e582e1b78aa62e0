import VendorScreen.Dex.Container
import VendorScreen.Proofs.Steps

namespace VendorScreen.Dex

/-!
# Names in the order of their definitions

The names that decoding gives are those of the descriptors, one for each class definition and in the
same order. The first definition without a name decides about all of them.
-/

namespace Container

/-- The name of the class with the given definition. -/
def name (c : Container) (classDef : ℕ) : Except Fault String :=
  (c.descriptor classDef).bind className

theorem namesFrom_succ (c : Container) (done : Array String) (index count : ℕ) :
    c.namesFrom done index (count + 1) =
      (c.name index).bind fun name => c.namesFrom (done.push name) (index + 1) count := by
  rw [namesFrom, name]
  cases c.descriptor index with
  | error fault => rfl
  | ok descriptor =>
      simp only [Except.bind]
      cases className descriptor with
      | error fault => rfl
      | ok name => rfl

theorem forall_name_cons_iff {c : Container} {index : ℕ} {first : String} {later : List String} :
    (∀ k (hk : k < (first :: later).length), c.name (index + k) = .ok (first :: later)[k]) ↔
      c.name index = .ok first ∧
        ∀ k (hk : k < later.length), c.name (index + 1 + k) = .ok later[k] := by
  constructor
  · intro h
    refine ⟨h 0 (by simp), ?_⟩
    intro k hk
    have hk' := h (k + 1) (by simpa using hk)
    simpa [Nat.add_assoc, Nat.add_comm 1] using hk'
  · rintro ⟨hfirst, hlater⟩ k hk
    cases k with
    | zero => exact hfirst
    | succ k =>
        have hk' := hlater k (by simpa using hk)
        simpa [Nat.add_assoc, Nat.add_comm 1] using hk'

/-- The names from one definition on, when each of these has one. -/
theorem namesFrom_eq_ok_iff (c : Container) (done : Array String) (index count : ℕ)
    (names : List String) :
    c.namesFrom done index count = .ok names ↔
      ∃ later, names = done.toList ++ later ∧ later.length = count ∧
        ∀ k (hk : k < later.length), c.name (index + k) = .ok later[k] := by
  induction count generalizing done index with
  | zero =>
      simp only [namesFrom, Except.ok.injEq]
      constructor
      · rintro rfl
        exact ⟨[], by simp, rfl, by simp⟩
      · rintro ⟨later, rfl, hlength, -⟩
        simp [List.length_eq_zero_iff.mp hlength]
  | succ count ih =>
      rw [namesFrom_succ]
      constructor
      · intro h
        obtain ⟨name, hname, hrest⟩ := bind_eq_ok_iff.mp h
        obtain ⟨later, rfl, hlength, hlater⟩ := (ih (done.push name) (index + 1)).mp hrest
        refine ⟨name :: later, by simp, by simp [hlength], ?_⟩
        exact forall_name_cons_iff.mpr ⟨hname, hlater⟩
      · rintro ⟨later, rfl, hlength, hnames⟩
        obtain ⟨first, later, rfl⟩ := List.exists_of_length_succ later hlength
        obtain ⟨hname, hlater⟩ := forall_name_cons_iff.mp hnames
        refine bind_eq_ok_iff.mpr ⟨first, hname, (ih (done.push first) (index + 1)).mpr ?_⟩
        exact ⟨later, by simp, Nat.succ.inj hlength, hlater⟩

/-- The first definition without a name makes decoding fail. -/
theorem namesFrom_eq_error {c : Container} {done : Array String} {index count k : ℕ} {fault : Fault}
    (hk : k < count) (hbefore : ∀ j < k, ∃ name, c.name (index + j) = .ok name)
    (hfault : c.name (index + k) = .error fault) :
    c.namesFrom done index count = .error fault := by
  induction k generalizing done index count with
  | zero =>
      obtain ⟨count, rfl⟩ := Nat.exists_eq_add_of_lt hk
      rw [Nat.zero_add, namesFrom_succ, show c.name index = .error fault by simpa using hfault]
      rfl
  | succ k ih =>
      obtain ⟨count, rfl⟩ : ∃ n, count = n + 1 := ⟨count - 1, by omega⟩
      obtain ⟨name, hname⟩ := hbefore 0 (Nat.succ_pos k)
      rw [namesFrom_succ, show c.name index = .ok name by simpa using hname]
      change c.namesFrom (done.push name) (index + 1) count = .error fault
      apply ih (by omega)
      · intro j hj
        obtain ⟨name, hname⟩ := hbefore (j + 1) (by omega)
        exact ⟨name, by simpa [Nat.add_assoc, Nat.add_comm 1] using hname⟩
      · simpa [Nat.add_assoc, Nat.add_comm 1] using hfault

/-- A fault of the names is that of one of the definitions. -/
theorem exists_of_namesFrom_eq_error {c : Container} {done : Array String} {index count : ℕ}
    {fault : Fault} (h : c.namesFrom done index count = .error fault) :
    ∃ k < count, c.name (index + k) = .error fault := by
  induction count generalizing done index with
  | zero => cases h
  | succ count ih =>
      rw [namesFrom_succ] at h
      rcases bind_eq_error_iff.mp h with hname | ⟨name, -, hlater⟩
      · exact ⟨0, Nat.succ_pos count, hname⟩
      · obtain ⟨k, hk, hname⟩ := ih hlater
        exact ⟨k + 1, Nat.succ_lt_succ hk, by rwa [Nat.add_comm k, ← Nat.add_assoc]⟩

end Container

/-- Decoding gives one name for each class definition, in their order. -/
theorem classNames_eq_ok_iff (b : ByteArray) (names : List String) :
    classNames b = .ok names ↔
      ∃ c, Container.open b = .ok c ∧ names.length = c.classDefs.size ∧
        ∀ k (hk : k < names.length), c.name k = .ok names[k] := by
  simp only [classNames, bind, Except.bind]
  cases hopen : Container.open b with
  | error fault => simp
  | ok c =>
      simp only [Container.names, Container.namesFrom_eq_ok_iff, Except.ok.injEq, exists_eq_left']
      simp

theorem decode_eq_ok_iff (source : ByteSource) (declaredSize : ℕ) (names : List String) :
    decode source declaredSize = .ok names ↔
      ∃ b, source.drain = .ok b ∧ classNames b = .ok names := by
  unfold decode
  cases source.drain with
  | error reason => simp
  | ok b => simp

end VendorScreen.Dex
