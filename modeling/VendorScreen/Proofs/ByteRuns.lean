import Mathlib
import VendorScreen.Bytes

namespace VendorScreen.Bytes

/-!
# Runs of bytes

A format is laid out by saying which bytes stand where. A run that stands at a position can be cut
into shorter runs, and a field is read back from the run that writes it. What stands in the first
bytes of a longer row stands there too.
-/

/-- The bytes of the list stand in `b` from position `start` on. -/
def Holds (b : ByteArray) (start : ℕ) : List UInt8 → Prop
  | [] => True
  | byte :: rest => b[start]? = some byte ∧ Holds b (start + 1) rest

@[simp] theorem holds_nil (b : ByteArray) (start : ℕ) : Holds b start [] := trivial

theorem holds_cons {b : ByteArray} {start : ℕ} {byte : UInt8} {rest : List UInt8} :
    Holds b start (byte :: rest) ↔ b[start]? = some byte ∧ Holds b (start + 1) rest := Iff.rfl

theorem holds_append {b : ByteArray} {start : ℕ} {l m : List UInt8} :
    Holds b start (l ++ m) ↔ Holds b start l ∧ Holds b (start + l.length) m := by
  induction l generalizing start with
  | nil => simp
  | cons byte l ih =>
      rw [List.cons_append, holds_cons, holds_cons, ih, and_assoc, List.length_cons,
        Nat.add_assoc start 1, Nat.add_comm 1]

theorem getElem?_toByteArray (l : List UInt8) (k : ℕ) : l.toByteArray[k]? = l[k]? := by
  by_cases hk : k < l.length
  · have hk' : k < l.toByteArray.size := by simpa using hk
    rw [getElem?_pos l.toByteArray k hk', getElem?_pos l k hk, List.getElem_toByteArray]
  · have hk' : ¬ k < l.toByteArray.size := by simpa using hk
    rw [getElem?_neg l.toByteArray k hk', getElem?_neg l k hk]

theorem holds_toByteArray (before l after : List UInt8) :
    Holds (before ++ (l ++ after)).toByteArray before.length l := by
  induction l generalizing before with
  | nil => trivial
  | cons byte l ih =>
      refine ⟨?_, by simpa using ih (before ++ [byte])⟩
      rw [getElem?_toByteArray, List.getElem?_append_right (Nat.le_refl _)]
      simp

theorem lt_size_of_getElem? {b : ByteArray} {k : ℕ} {byte : UInt8} (h : b[k]? = some byte) :
    k < b.size := by
  by_contra hk
  rw [getElem?_neg b k hk] at h
  simp at h

theorem Holds.le_size {b : ByteArray} {start : ℕ} {l : List UInt8} (h : Holds b start l)
    (hl : l ≠ []) : start + l.length ≤ b.size := by
  induction l generalizing start with
  | nil => exact absurd rfl hl
  | cons byte l ih =>
      have hstart := lt_size_of_getElem? h.1
      cases l with
      | nil => simpa using hstart
      | cons next l =>
          have hrest := ih h.2 (by simp)
          simp only [List.length_cons] at hrest ⊢
          omega

/-- The item with index `k` of a table whose items all have the same width. -/
theorem Holds.item {α : Type} {b : ByteArray} {start width k : ℕ} {xs : List α}
    {write : α → List UInt8} (hwidth : ∀ x ∈ xs, (write x).length = width)
    (h : Holds b start (xs.flatMap write)) (hk : k < xs.length) :
    Holds b (start + k * width) (write xs[k]) := by
  induction xs generalizing start k with
  | nil => simp at hk
  | cons x xs ih =>
      rw [List.flatMap_cons, holds_append, hwidth x List.mem_cons_self] at h
      cases k with
      | zero => simpa using h.1
      | succ k =>
          have hlater := ih (fun y hy => hwidth y (List.mem_cons_of_mem x hy)) h.2
            (by simpa using hk)
          rw [Nat.succ_mul, Nat.add_comm (k * width), ← Nat.add_assoc]
          exact hlater

theorem toNat_toUInt8 {n : ℕ} (h : n < 256) : n.toUInt8.toNat = n := UInt8.toNat_ofNat_of_lt' h

@[simp] theorem length_ofField (value width : ℕ) : (ofField value width).length = width := by
  induction width generalizing value with
  | zero => rfl
  | succ width ih => simp [ofField, ih]

/-- A field that is wide enough for a number gives it back. -/
theorem field?_of_holds {b : ByteArray} {start value width : ℕ} (hvalue : value < 256 ^ width)
    (h : Holds b start (ofField value width)) : field? b start width = some value := by
  induction width generalizing start value with
  | zero =>
      have hzero : value = 0 := by simpa using hvalue
      rw [hzero, field?_zero]
  | succ width ih =>
      have hhigh : value / 256 < 256 ^ width := by
        rw [Nat.div_lt_iff_lt_mul (by decide), ← Nat.pow_succ]
        exact hvalue
      have hlow : (value % 256).toUInt8.toNat = value % 256 := by simp
      rw [field?_succ, h.1, Option.bind_some, ih hhigh h.2, Option.map_some, hlow,
        Nat.mod_add_div]

theorem u32?_of_holds {b : ByteArray} {start value : ℕ} (hvalue : value < 2 ^ 32)
    (h : Holds b start (ofField value 4)) : u32? b start = some value :=
  field?_of_holds (by simpa using hvalue) h

theorem Holds.getElem? {b : ByteArray} {start k : ℕ} {l : List UInt8} (h : Holds b start l)
    (hk : k < l.length) : b[start + k]? = some l[k] := by
  induction l generalizing start k with
  | nil => simp at hk
  | cons byte l ih =>
      cases k with
      | zero => exact h.1
      | succ k =>
          have hlater := ih h.2 (by simpa using hk)
          simpa [Nat.add_assoc, Nat.add_comm 1] using hlater

theorem Holds.extract {b : ByteArray} {start : ℕ} {l : List UInt8} (h : Holds b start l) :
    (b.extract start (start + l.length)).data.toList = l := by
  have hsize : (b.extract start (start + l.length)).size = l.length := by
    cases l with
    | nil => simp
    | cons byte l =>
        have hle := h.le_size (List.cons_ne_nil byte l)
        rw [ByteArray.size_extract]
        omega
  apply List.ext_getElem
  · rw [Array.length_toList]
    exact hsize
  intro k hk hk'
  have hget := h.getElem? hk'
  rw [getElem?_pos b _ (lt_size_of_getElem? hget)] at hget
  simpa [ByteArray.getElem_eq_getElem_data] using hget

theorem Holds.extract_eq {b : ByteArray} {start : ℕ} {l : List UInt8} (h : Holds b start l) :
    b.extract start (start + l.length) = l.toByteArray := by
  apply ByteArray.ext
  apply Array.ext'
  rw [h.extract, List.data_toByteArray]

section fields

variable {b : ByteArray} {start width value : ℕ}

theorem lt_of_field? (h : field? b start width = some value) : value < 256 ^ width := by
  induction width generalizing start value with
  | zero =>
      rw [field?_zero, Option.some.injEq] at h
      simp [← h]
  | succ width ih =>
      rw [field?_succ, Option.bind_eq_some_iff] at h
      obtain ⟨low, -, hhigh⟩ := h
      obtain ⟨high, hfield, rfl⟩ := Option.map_eq_some_iff.mp hhigh
      have hbyte := low.toNat_lt
      have hbound := ih hfield
      rw [Nat.pow_succ]
      omega

theorem exists_field?_of_le (h : start + width ≤ b.size) :
    ∃ value, field? b start width = some value := by
  induction width generalizing start with
  | zero => exact ⟨0, rfl⟩
  | succ width ih =>
      have hlater : start + 1 + width ≤ b.size := by omega
      obtain ⟨high, hhigh⟩ := ih hlater
      rw [field?_succ, getElem?_pos b start (by omega), hhigh]
      exact ⟨_, rfl⟩

theorem le_size_of_field? (hwidth : 0 < width) (h : field? b start width = some value) :
    start + width ≤ b.size := by
  induction width generalizing start value with
  | zero => exact absurd hwidth (lt_irrefl 0)
  | succ width ih =>
      rw [field?_succ, Option.bind_eq_some_iff] at h
      obtain ⟨low, hlow, hhigh⟩ := h
      obtain ⟨high, hfield, -⟩ := Option.map_eq_some_iff.mp hhigh
      have hstart := lt_size_of_getElem? hlow
      cases width with
      | zero => omega
      | succ width =>
          have hlater := ih (Nat.succ_pos width) hfield
          omega

theorem exists_u32?_of_le (h : start + 4 ≤ b.size) : ∃ value, u32? b start = some value :=
  exists_field?_of_le h

end fields

section beginnings

variable {b cut : ByteArray} {start width value : ℕ}

/-- The bytes of `cut` are the first ones of `b`. -/
def IsBeginning (cut b : ByteArray) : Prop :=
  ∀ (k : ℕ) (byte : UInt8), cut[k]? = some byte → b[k]? = some byte

theorem isBeginning_extract (b : ByteArray) (stop : ℕ) : IsBeginning (b.extract 0 stop) b := by
  intro k byte h
  have hk := lt_size_of_getElem? h
  rw [getElem?_pos _ k hk, ByteArray.getElem_extract] at h
  rw [ByteArray.size_extract] at hk
  rw [getElem?_pos b k (by omega)]
  simpa using h

theorem isBeginning_append (b more : ByteArray) : IsBeginning b (b ++ more) := by
  intro k byte h
  have hk := lt_size_of_getElem? h
  have hk' : k < (b ++ more).size := by
    rw [ByteArray.size_append]
    omega
  rw [getElem?_pos b k hk] at h
  rw [getElem?_pos _ k hk', ByteArray.getElem_append_left hk]
  exact h

namespace IsBeginning

theorem size_le (h : IsBeginning cut b) : cut.size ≤ b.size := by
  by_contra hlonger
  have hlast : b.size < cut.size := by omega
  exact Nat.lt_irrefl _ (lt_size_of_getElem? (h _ _ (getElem?_pos cut b.size hlast)))

theorem field?_eq (h : IsBeginning cut b) (hcut : field? cut start width = some value) :
    field? b start width = some value := by
  induction width generalizing start value with
  | zero => exact hcut
  | succ width ih =>
      rw [field?_succ, Option.bind_eq_some_iff] at hcut
      obtain ⟨low, hlow, hhigh⟩ := hcut
      obtain ⟨high, hfield, rfl⟩ := Option.map_eq_some_iff.mp hhigh
      rw [field?_succ, h _ _ hlow, ih hfield]
      rfl

theorem holds {l : List UInt8} (h : IsBeginning cut b) (hcut : Holds cut start l) :
    Holds b start l := by
  induction l generalizing start with
  | nil => trivial
  | cons byte l ih => exact ⟨h _ _ hcut.1, ih hcut.2⟩

theorem extract_eq {stop : ℕ} (h : IsBeginning cut b) (hstop : stop ≤ cut.size) :
    b.extract 0 stop = cut.extract 0 stop := by
  have hle := h.size_le
  apply ByteArray.ext_getElem
  · simp only [ByteArray.size_extract]
    omega
  intro k hk hk'
  rw [ByteArray.size_extract] at hk hk'
  have hget := h k _ (getElem?_pos cut k (by omega))
  rw [getElem?_pos b k (by omega), Option.some.injEq] at hget
  simpa [ByteArray.getElem_extract] using hget

end IsBeginning

end beginnings

end VendorScreen.Bytes
