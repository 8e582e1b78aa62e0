import Mathlib
import VendorScreen.Text.Utf16

namespace VendorScreen.Text.Utf16

/-!
# Reading back UTF-16

A character of the first plane is no surrogate, and any other is a pair that gives the character
back. So the units of a text are read as the text, and no other units are.
-/

theorem toNat_cases (c : Char) :
    c.toNat < 0xd800 ∨ (0xdfff < c.toNat ∧ c.toNat < 0x110000) := by
  rcases c.valid with h | ⟨h, h'⟩
  · exact .inl h
  · exact .inr ⟨h, h'⟩

theorem pair_of_encodeChar {c : Char} (h : 0x10000 ≤ c.toNat) :
    pair (0xd800 + (c.toNat - 0x10000) / 0x400) (0xdc00 + (c.toNat - 0x10000) % 0x400) = c := by
  have hsum : 0x10000 + (0xd800 + (c.toNat - 0x10000) / 0x400 - 0xd800) * 0x400
      + (0xdc00 + (c.toNat - 0x10000) % 0x400 - 0xdc00) = c.toNat := by omega
  rw [pair, hsum, Char.ofNat_toNat]

theorem decodeOnto?_single {done : List Char} {unit : ℕ} {rest : List ℕ}
    (hhigh : isHigh unit = false) (hlow : isLow unit = false) :
    decodeOnto? done (unit :: rest) = decodeOnto? (Char.ofNat unit :: done) rest := by
  cases rest <;> simp [decodeOnto?, hhigh, hlow]

theorem decodeOnto?_pair {done : List Char} {high low : ℕ} {rest : List ℕ}
    (hhigh : isHigh high = true) (hlow : isLow low = true) :
    decodeOnto? done (high :: low :: rest) = decodeOnto? (pair high low :: done) rest := by
  simp [decodeOnto?, hhigh, hlow]

theorem decodeOnto?_encodeChar (done : List Char) (c : Char) (rest : List ℕ) :
    decodeOnto? done (encodeChar c ++ rest) = decodeOnto? (c :: done) rest := by
  have hc := toNat_cases c
  by_cases hplane : c.toNat < 0x10000
  · have hhigh : isHigh c.toNat = false := by
      simp only [isHigh, Bool.and_eq_false_iff, decide_eq_false_iff_not]
      omega
    have hlow : isLow c.toNat = false := by
      simp only [isLow, Bool.and_eq_false_iff, decide_eq_false_iff_not]
      omega
    rw [encodeChar, if_pos hplane, List.singleton_append, decodeOnto?_single hhigh hlow,
      Char.ofNat_toNat]
  · have hhigh : isHigh (0xd800 + (c.toNat - 0x10000) / 0x400) = true := by
      simp only [isHigh, Bool.and_eq_true, decide_eq_true_eq]
      omega
    have hlow : isLow (0xdc00 + (c.toNat - 0x10000) % 0x400) = true := by
      simp only [isLow, Bool.and_eq_true, decide_eq_true_eq]
      omega
    rw [encodeChar, if_neg hplane, List.cons_append, List.singleton_append,
      decodeOnto?_pair hhigh hlow, pair_of_encodeChar (Nat.le_of_not_lt hplane)]

theorem encode_cons (c : Char) (chars : List Char) :
    encode (c :: chars) = encodeChar c ++ encode chars := List.flatMap_cons

theorem decodeOnto?_encode (done chars : List Char) :
    decodeOnto? done (encode chars) = some (done.reverse ++ chars) := by
  induction chars generalizing done with
  | nil => simp [encode, decodeOnto?]
  | cons c chars ih =>
      rw [encode_cons, decodeOnto?_encodeChar, ih]
      simp

theorem decode?_encode (chars : List Char) : decode? (encode chars) = some chars :=
  decodeOnto?_encode [] chars

/-- A unit has sixteen bits. -/
theorem lt_of_mem_encode {chars : List Char} {unit : ℕ} (h : unit ∈ encode chars) :
    unit < 0x10000 := by
  obtain ⟨c, -, hunit⟩ := List.mem_flatMap.mp h
  have hc := toNat_cases c
  unfold encodeChar at hunit
  split at hunit
  · simp only [List.mem_singleton] at hunit
    omega
  · simp only [List.mem_cons, List.not_mem_nil, or_false] at hunit
    omega

theorem toNat_ofNat_of_single {unit : ℕ} (hunit : unit < 0x10000) (hhigh : isHigh unit = false)
    (hlow : isLow unit = false) : (Char.ofNat unit).toNat = unit := by
  have hvalid : unit.isValidChar := by
    simp only [isHigh, isLow, Bool.and_eq_false_iff, decide_eq_false_iff_not] at hhigh hlow
    unfold Nat.isValidChar
    omega
  rw [Char.toNat_ofNat, if_pos hvalid]

theorem encodeChar_of_single {unit : ℕ} (hunit : unit < 0x10000) (hhigh : isHigh unit = false)
    (hlow : isLow unit = false) : encodeChar (Char.ofNat unit) = [unit] := by
  rw [encodeChar, toNat_ofNat_of_single hunit hhigh hlow, if_pos hunit]

theorem encodeChar_pair {high low : ℕ} (hhigh : isHigh high = true) (hlow : isLow low = true) :
    encodeChar (pair high low) = [high, low] := by
  simp only [isHigh, isLow, Bool.and_eq_true, decide_eq_true_eq] at hhigh hlow
  have hvalid : (0x10000 + (high - 0xd800) * 0x400 + (low - 0xdc00)).isValidChar := by
    unfold Nat.isValidChar
    omega
  have hnat : (pair high low).toNat = 0x10000 + (high - 0xd800) * 0x400 + (low - 0xdc00) := by
    rw [pair, Char.toNat_ofNat, if_pos hvalid]
  have hplane : ¬ (pair high low).toNat < 0x10000 := by omega
  have hfirst : 0xd800 + ((pair high low).toNat - 0x10000) / 0x400 = high := by omega
  have hsecond : 0xdc00 + ((pair high low).toNat - 0x10000) % 0x400 = low := by omega
  rw [encodeChar, if_neg hplane, hfirst, hsecond]

theorem exists_eq_encode_append {c : Char} {done chars : List Char} {first rest : List ℕ}
    (hc : encodeChar c = first)
    (hrest : ∃ later, chars = (c :: done).reverse ++ later ∧ rest = encode later) :
    ∃ later, chars = done.reverse ++ later ∧ first ++ rest = encode later := by
  obtain ⟨later, rfl, rfl⟩ := hrest
  exact ⟨c :: later, by simp, by rw [encode_cons, hc]⟩

theorem exists_of_decodeOnto? {done chars : List Char} {units : List ℕ}
    (hunits : ∀ unit ∈ units, unit < 0x10000) (h : decodeOnto? done units = some chars) :
    ∃ later, chars = done.reverse ++ later ∧ units = encode later := by
  fun_induction decodeOnto? done units with
  | case1 done => exact ⟨[], by simpa using h.symm, rfl⟩
  | case3 done unit hlone =>
      obtain ⟨hhigh, hlow⟩ : isHigh unit = false ∧ isLow unit = false := by simpa using hlone
      have hsingle := encodeChar_of_single (hunits unit List.mem_cons_self) hhigh hlow
      exact exists_eq_encode_append hsingle ⟨[], by simpa using h.symm, rfl⟩
  | case4 done high low rest hhigh hlow ih =>
      refine exists_eq_encode_append (encodeChar_pair hhigh hlow) (ih ?_ h)
      intro unit hunit
      exact hunits unit (List.mem_cons_of_mem _ (List.mem_cons_of_mem _ hunit))
  | case7 done unit next rest hhigh hlow ih =>
      have hsingle := encodeChar_of_single (hunits unit List.mem_cons_self)
        (Bool.eq_false_of_not_eq_true hhigh) (Bool.eq_false_of_not_eq_true hlow)
      refine exists_eq_encode_append hsingle (ih ?_ h)
      intro unit' hunit'
      exact hunits unit' (List.mem_cons_of_mem _ hunit')
  | case2 | case5 | case6 => cases h

theorem decode?_eq_some_iff {units : List ℕ} {chars : List Char}
    (hunits : ∀ unit ∈ units, unit < 0x10000) :
    decode? units = some chars ↔ units = encode chars := by
  constructor
  · intro h
    obtain ⟨later, rfl, hlater⟩ := exists_of_decodeOnto? hunits h
    exact hlater
  · rintro rfl
    exact decode?_encode chars

end VendorScreen.Text.Utf16
