import Mathlib

namespace VendorScreen

/-!
# The earliest element with a property

Several parts of a query stop at the first thing in a list that decides something. What stops them
is named by its index, with nothing of the kind at a smaller one.
-/

/-- The element `a` at index `k` has the property, and none before it has. -/
def IsEarliest {α : Type} (p : α → Prop) (xs : List α) (k : ℕ) (a : α) : Prop :=
  xs[k]? = some a ∧ p a ∧ ∀ j < k, ∀ b, xs[j]? = some b → ¬ p b

namespace IsEarliest

variable {α : Type} {p : α → Prop} {x a : α} {xs : List α} {k : ℕ}

theorem nil_iff : IsEarliest p [] k a ↔ False := by simp [IsEarliest]

theorem zero_iff : IsEarliest p (x :: xs) 0 a ↔ x = a ∧ p a := by
  simp [IsEarliest]

theorem succ_iff : IsEarliest p (x :: xs) (k + 1) a ↔ ¬ p x ∧ IsEarliest p xs k a := by
  constructor
  · rintro ⟨hget, hp, hbefore⟩
    refine ⟨hbefore 0 (Nat.succ_pos k) x rfl, by simpa using hget, hp, ?_⟩
    intro j hj b hb
    exact hbefore (j + 1) (Nat.succ_lt_succ hj) b (by simpa using hb)
  · rintro ⟨hx, hget, hp, hbefore⟩
    refine ⟨by simpa using hget, hp, ?_⟩
    intro j hj b hb
    cases j with
    | zero =>
        have hxb : x = b := by simpa using hb
        exact hxb ▸ hx
    | succ j => exact hbefore j (Nat.lt_of_succ_lt_succ hj) b (by simpa using hb)

theorem mem (h : IsEarliest p xs k a) : a ∈ xs := List.mem_of_getElem? h.1

/-- Two earliest elements are one. -/
theorem unique {k' : ℕ} {a' : α} (h : IsEarliest p xs k a) (h' : IsEarliest p xs k' a') :
    k = k' ∧ a = a' := by
  have hk : k = k' := by
    rcases Nat.lt_trichotomy k k' with hlt | heq | hgt
    · exact absurd h.2.1 (h'.2.2 k hlt a h.1)
    · exact heq
    · exact absurd h'.2.1 (h.2.2 k' hgt a' h'.1)
  subst hk
  exact ⟨rfl, Option.some.inj (h.1.symm.trans h'.1)⟩

/-- Either some element is the earliest one, or none has the property. -/
theorem exists_or_forall_not (p : α → Prop) (xs : List α) :
    (∃ k a, IsEarliest p xs k a) ∨ ∀ a ∈ xs, ¬ p a := by
  induction xs with
  | nil => exact .inr (by simp)
  | cons x xs ih =>
      by_cases hx : p x
      · exact .inl ⟨0, x, zero_iff.mpr ⟨rfl, hx⟩⟩
      · rcases ih with ⟨k, a, h⟩ | h
        · exact .inl ⟨k + 1, a, succ_iff.mpr ⟨hx, h⟩⟩
        · exact .inr (by simpa [hx] using h)

end IsEarliest

theorem find?_eq_some_iff_isEarliest {α : Type} (q : α → Bool) (xs : List α) (a : α) :
    xs.find? q = some a ↔ ∃ k, IsEarliest (fun b => q b = true) xs k a := by
  induction xs with
  | nil => simp [IsEarliest.nil_iff]
  | cons x xs ih =>
      by_cases hx : q x = true
      · rw [List.find?_cons_of_pos hx]
        constructor
        · intro h
          have hxa : x = a := Option.some.inj h
          exact ⟨0, IsEarliest.zero_iff.mpr ⟨hxa, hxa ▸ hx⟩⟩
        · rintro ⟨k, h⟩
          have h₀ : IsEarliest (fun b => q b = true) (x :: xs) 0 x :=
            IsEarliest.zero_iff.mpr ⟨rfl, hx⟩
          rw [(h₀.unique h).2]
      · rw [List.find?_cons_of_neg hx, ih]
        constructor
        · rintro ⟨k, h⟩
          exact ⟨k + 1, IsEarliest.succ_iff.mpr ⟨hx, h⟩⟩
        · rintro ⟨k, h⟩
          cases k with
          | zero =>
              obtain ⟨rfl, hp⟩ := IsEarliest.zero_iff.mp h
              exact absurd hp hx
          | succ k => exact ⟨k, (IsEarliest.succ_iff.mp h).2⟩

end VendorScreen
