import Mathlib
import VendorScreen.Text.Quoted

namespace VendorScreen.Text

/-!
# Texts without control characters

A control character can end a line, jump to the next field or drive a terminal. Numbers and quoted
texts hold none, whatever they are made from, and none comes in where texts are put together.
-/

/-- The characters of the category Cc. -/
def IsControl (c : Char) : Prop := c.toNat < 0x20 ∨ 0x7f ≤ c.toNat ∧ c.toNat < 0xa0

instance : DecidablePred IsControl := fun _ => inferInstanceAs (Decidable (_ ∨ _))

def IsControlFree (s : String) : Prop := ∀ c ∈ s.toList, ¬ IsControl c

/-- The characters of the text are looked at, and not those of the alphabet. -/
instance : DecidablePred IsControlFree :=
  fun s => List.decidableBAll (fun c => ¬ IsControl c) s.toList

section texts

variable {s t : String} {c d : Char} {base n : ℕ}

@[simp] theorem isControlFree_append :
    IsControlFree (s ++ t) ↔ IsControlFree s ∧ IsControlFree t := by
  simp [IsControlFree, or_imp, forall_and]

@[simp] theorem isControlFree_ofList {cs : List Char} :
    IsControlFree (String.ofList cs) ↔ ∀ c ∈ cs, ¬ IsControl c := by
  rw [IsControlFree, String.toList_ofList]

theorem not_mem_of_isControlFree (h : IsControlFree s) (hc : IsControl c) : c ∉ s.toList :=
  fun hmem => h c hmem hc

theorem isControlFree_intercalate {texts : List String} (hs : IsControlFree s)
    (htexts : ∀ t ∈ texts, IsControlFree t) : IsControlFree (s.intercalate texts) := by
  rw [IsControlFree, String.toList_intercalate]
  induction texts with
  | nil => simp
  | cons t texts ih =>
      obtain ⟨ht, hrest⟩ := List.forall_mem_cons.mp htexts
      cases texts with
      | nil =>
          simp only [List.map_cons, List.map_nil, List.intercalate_singleton]
          exact ht
      | cons next texts =>
          simp only [List.map_cons, List.intercalate_cons_cons, List.mem_append] at ih ⊢
          rintro c ((hc | hc) | hc)
          · exact ht c hc
          · exact hs c hc
          · exact ih hrest c hc

theorem not_isControl_digitChar : ∀ n < 16, ¬ IsControl n.digitChar := by
  decide

theorem not_isControl_of_mem_toDigits (hbase : 1 < base) (hdigits : base ≤ 16)
    (h : c ∈ Nat.toDigits base n) : ¬ IsControl c := by
  induction n using Nat.strongRecOn with
  | ind n ih =>
      rcases Nat.lt_or_ge n base with hsmall | hlarge
      · rw [Nat.toDigits_of_lt_base hsmall, List.mem_singleton] at h
        exact h ▸ not_isControl_digitChar n (by omega)
      · rw [Nat.toDigits_of_base_le hbase hlarge, List.mem_append, List.mem_singleton] at h
        rcases h with h | rfl
        · exact ih (n / base) (Nat.div_lt_self (by omega) hbase) h
        · have := Nat.mod_lt n (by omega : base > 0)
          exact not_isControl_digitChar _ (by omega)

theorem isControlFree_toString (n : ℕ) : IsControlFree (toString n) := by
  intro c hc
  exact not_isControl_of_mem_toDigits (by decide) (by decide) (Nat.toList_repr ▸ hc)

theorem isUnprintable_of_isControl (h : IsControl c) : isUnprintable c = true := by
  rw [isUnprintable, List.any_eq_true]
  rcases h with h | ⟨hlow, hhigh⟩
  · refine ⟨(0x0, 0x1f), List.mem_cons_self, ?_⟩
    simp
    omega
  · refine ⟨(0x7f, 0xa0), List.mem_cons_of_mem _ List.mem_cons_self, ?_⟩
    simp
    omega

/-- An escape is written with marks, letters and digits. What is not escaped can be shown. -/
theorem not_isControl_of_mem_escape (h : d ∈ escape c) : ¬ IsControl d := by
  unfold escape at h
  split_ifs at h with hquote hback hzero htab hreturn hfeed hhidden
  · exact (by simp [IsControl] : ∀ d ∈ ['\\', '"'], ¬ IsControl d) d h
  · exact (by simp [IsControl] : ∀ d ∈ ['\\', '\\'], ¬ IsControl d) d h
  · exact (by simp [IsControl] : ∀ d ∈ ['\\', '0'], ¬ IsControl d) d h
  · exact (by simp [IsControl] : ∀ d ∈ ['\\', 't'], ¬ IsControl d) d h
  · exact (by simp [IsControl] : ∀ d ∈ ['\\', 'r'], ¬ IsControl d) d h
  · exact (by simp [IsControl] : ∀ d ∈ ['\\', 'n'], ¬ IsControl d) d h
  · rw [List.mem_append, List.mem_append] at h
    rcases h with (h | h) | h
    · exact (by simp [IsControl] : ∀ d ∈ ['\\', 'u', '\x7b'], ¬ IsControl d) d h
    · exact not_isControl_of_mem_toDigits (by decide) le_rfl h
    · exact (by simp [IsControl] : ∀ d ∈ ['\x7d'], ¬ IsControl d) d h
  · rw [List.mem_singleton] at h
    subst h
    intro hcontrol
    exact hhidden (by simp [isHidden, isUnprintable_of_isControl hcontrol])

theorem isControlFree_quote (s : String) : IsControlFree (quote s) := by
  rw [quote, isControlFree_ofList]
  have hmark : ¬ IsControl '"' := by decide
  simp only [List.cons_append, List.forall_mem_cons, List.mem_append, List.mem_flatMap,
    List.mem_singleton]
  refine ⟨hmark, ?_⟩
  rintro d (⟨c, -, hd⟩ | rfl)
  · exact not_isControl_of_mem_escape hd
  · exact hmark

end texts

end VendorScreen.Text
