import VendorScreen.Json.Reader
import VendorScreen.Json.Writer
import VendorScreen.Proofs.Text.Utf16

namespace VendorScreen.Json

/-!
# Reading back literals

A string is read back from its characters one by one, whether they are escaped or stand for
themselves. A number is read back digit by digit: its literal has a digit on both sides of a point,
and zeros in front only where there is nothing else.
-/

open Text.Utf16 (encode encodeChar encode_cons)

/-! ## Strings -/

theorem hexValue?_hexDigit {n : ℕ} (h : n < 16) : hexValue? (hexDigit n) = some n := by
  revert h n
  decide

theorem readUnits_writeChar (done : List ℕ) (c : Char) (rest : List Char) :
    readUnits done (writeChar c ++ rest) = readUnits ((encodeChar c).reverse ++ done) rest := by
  rw [writeChar]
  split_ifs with hquote hslash hback hfeed hline hreturn htab hcontrol
  · subst hquote
    rfl
  · subst hslash
    rfl
  · subst hback
    rfl
  · subst hfeed
    rfl
  · subst hline
    rfl
  · subst hreturn
    rfl
  · subst htab
    rfl
  · have hlt : c.toNat < 32 := hcontrol
    have hunit : unit? '0' '0' (hexDigit (c.toNat / 16)) (hexDigit (c.toNat % 16)) =
        some c.toNat := by
      have hzero : hexValue? '0' = some 0 := by decide
      have hhigh := hexValue?_hexDigit (show c.toNat / 16 < 16 by omega)
      have hlow := hexValue?_hexDigit (show c.toNat % 16 < 16 by omega)
      have hsum : c.toNat / 16 * 16 + c.toNat % 16 = c.toNat := by omega
      simp [unit?, hzero, hhigh, hlow, hsum]
    have hencode : encodeChar c = [c.toNat] := if_pos (by omega)
    simp [readUnits, hunit, hencode]
  · rw [List.singleton_append, readUnits.eq_def]
    split <;> simp_all

theorem readUnits_flatMap (done : List ℕ) (cs rest : List Char) :
    readUnits done (cs.flatMap writeChar ++ '"' :: rest) =
      some (done.reverse ++ encode cs, rest) := by
  induction cs generalizing done with
  | nil => simp [readUnits, encode]
  | cons c cs ih =>
      rw [List.flatMap_cons, List.append_assoc, readUnits_writeChar, ih, encode_cons]
      simp

theorem readString_toList (s : String) (rest : List Char) :
    readString (s.toList.flatMap writeChar ++ '"' :: rest) = some (some s, rest) := by
  simp [readString, readUnits_flatMap, Text.Utf16.decode?_encode]

/-! ## Digits -/

theorem digitsValue_eq (digits : List Char) : digitsValue digits = Nat.ofDigitChars 10 digits 0 := by
  simp only [digitsValue, Nat.ofDigitChars_eq_foldl, mul_comm]

theorem isDigit_of_mem_toDigits {n : ℕ} {c : Char} (h : c ∈ Nat.toDigits 10 n) :
    isDigit c = true :=
  Nat.isDigit_of_mem_toDigits (by decide) le_rfl h

theorem digitsValue_toDigits (n : ℕ) : digitsValue (Nat.toDigits 10 n) = n := by
  rw [digitsValue_eq, Nat.ofDigitChars_toDigits (by decide) le_rfl]

/-- Only zero is written with a zero in front. -/
theorem head?_toDigits_ne {n : ℕ} (h : n ≠ 0) : (Nat.toDigits 10 n).head? ≠ some '0' := by
  induction n using Nat.strongRecOn with
  | ind n ih =>
      by_cases hsmall : n < 10
      · rw [Nat.toDigits_of_lt_base hsmall]
        have hdigits : ∀ m < 10, m ≠ 0 → m.digitChar ≠ '0' := by decide
        simpa using hdigits n hsmall h
      · rw [Nat.toDigits_of_base_le (by decide) (by omega), List.head?_append_of_ne_nil _
          Nat.toDigits_ne_nil]
        exact ih (n / 10) (by omega) (by omega)

/-! ## Numbers -/

theorem takeWhile_append {α : Type} {p : α → Bool} {front back : List α}
    (hfront : ∀ a ∈ front, p a = true) (hback : ∀ a ∈ back.head?, p a = false) :
    (front ++ back).takeWhile p = front ∧ (front ++ back).dropWhile p = back := by
  induction front with
  | nil =>
      cases back with
      | nil => exact ⟨rfl, rfl⟩
      | cons a back =>
          have ha : p a = false := hback a rfl
          simp [ha]
  | cons a front ih =>
      have ha : p a = true := hfront a List.mem_cons_self
      have hrest := ih fun b hb => hfront b (List.mem_cons_of_mem _ hb)
      simp [ha, hrest]

/-- Digits in front of a point. -/
structure IsWhole (whole : List Char) : Prop where
  ne_nil : whole ≠ []
  digits : ∀ c ∈ whole, isDigit c = true
  zero_alone : whole.head? = some '0' → whole.length ≤ 1

/-- What stands behind the point, with the point itself. -/
def pointed (fraction : List Char) : List Char := if fraction.isEmpty then [] else '.' :: fraction

/-- A power of ten as it is written. -/
def power (exponent : Option ℤ) : List Char :=
  match exponent with
  | none => []
  | some e => 'e' :: e.repr.toList

/-- The digits of a number, with as many zeros in front as the point asks for. -/
def paddedDigits (n : Numeral) : List Char :=
  List.replicate (n.fractionDigits + 1 - (Nat.toDigits 10 n.significand).length) '0' ++
    Nat.toDigits 10 n.significand

/-- How many of the digits stand in front of the point. -/
def wholeLength (n : Numeral) : ℕ := (paddedDigits n).length - n.fractionDigits

theorem fractionDigits_lt_length (n : Numeral) : n.fractionDigits < (paddedDigits n).length := by
  rw [paddedDigits, List.length_append, List.length_replicate]
  omega

theorem isDigit_of_mem_paddedDigits {n : Numeral} {c : Char} (h : c ∈ paddedDigits n) :
    isDigit c = true := by
  rcases List.mem_append.mp h with hzero | hdigit
  · rw [List.eq_of_mem_replicate hzero]
    decide
  · exact isDigit_of_mem_toDigits hdigit

theorem digitsValue_paddedDigits (n : Numeral) : digitsValue (paddedDigits n) = n.significand := by
  rw [paddedDigits, digitsValue_eq, Nat.ofDigitChars_append, Nat.ofDigitChars_replicate_zero,
    mul_zero, ← digitsValue_eq, digitsValue_toDigits]

theorem wholeLength_le_one {n : Numeral} (h : (paddedDigits n).head? = some '0') :
    wholeLength n ≤ 1 := by
  have hpos : 0 < (Nat.toDigits 10 n.significand).length := Nat.length_toDigits_pos
  by_cases hpad : n.fractionDigits + 1 ≤ (Nat.toDigits 10 n.significand).length
  · have hsame : paddedDigits n = Nat.toDigits 10 n.significand := by
      rw [paddedDigits, Nat.sub_eq_zero_of_le hpad]
      rfl
    have hzero : n.significand = 0 := by
      by_contra hne
      exact head?_toDigits_ne hne (hsame ▸ h)
    have hlength : (paddedDigits n).length = 1 := by
      rw [hsame, hzero]
      rfl
    rw [wholeLength]
    omega
  · rw [wholeLength, paddedDigits, List.length_append, List.length_replicate]
    omega

theorem isWhole_take (n : Numeral) : IsWhole ((paddedDigits n).take (wholeLength n)) := by
  have hlt := fractionDigits_lt_length n
  have hpos : 0 < wholeLength n := Nat.sub_pos_of_lt hlt
  refine ⟨?_, fun c hc => isDigit_of_mem_paddedDigits (List.mem_of_mem_take hc), ?_⟩
  · apply List.ne_nil_of_length_pos
    rw [List.length_take]
    omega
  · intro hhead
    rw [List.head?_take, if_neg hpos.ne'] at hhead
    rw [List.length_take]
    exact (min_le_left _ _).trans (wholeLength_le_one hhead)

theorem writeNumeral_eq (n : Numeral) : writeNumeral n =
    (if n.negative then ['-'] else []) ++ ((paddedDigits n).take (wholeLength n) ++
      (pointed ((paddedDigits n).drop (wholeLength n)) ++ power n.exponent)) := by
  simp only [writeNumeral, List.append_assoc]
  rfl

theorem ne_sign_of_isDigit {c : Char} (h : isDigit c = true) : c ≠ '-' ∧ c ≠ '+' := by
  constructor <;>
  · rintro rfl
    revert h
    decide

theorem head?_power_not_digit (exponent : Option ℤ) :
    ∀ c ∈ (power exponent).head?, isDigit c = false := by
  cases exponent with
  | none => simp [power]
  | some e => simp [power, isDigit]

theorem readExponent?_toDigits (n : ℕ) :
    readExponent? (Nat.toDigits 10 n) = some (n : ℤ) ∧
      readExponent? ('-' :: Nat.toDigits 10 n) = some (-n : ℤ) := by
  have hall : (Nat.toDigits 10 n).all isDigit = true :=
    List.all_eq_true.mpr fun c hc => isDigit_of_mem_toDigits hc
  have hsign (c : Char) (rest : List Char) (h : Nat.toDigits 10 n = c :: rest) :
      c ≠ '-' ∧ c ≠ '+' := by
    apply ne_sign_of_isDigit
    exact isDigit_of_mem_toDigits (h ▸ List.mem_cons_self)
  constructor
  · rw [readExponent?]
    · simp [hall, digitsValue_toDigits]
    · exact fun rest h => (hsign _ rest h).1 rfl
    · exact fun rest h => (hsign _ rest h).2 rfl
  · simp [readExponent?, hall, digitsValue_toDigits]

theorem readExponent?_repr (e : ℤ) : readExponent? e.repr.toList = some e := by
  cases e with
  | ofNat n =>
      have htext : (Int.ofNat n).repr.toList = Nat.toDigits 10 n := Nat.toList_repr
      rw [htext, (readExponent?_toDigits n).1]
      rfl
  | negSucc n =>
      have htext : (Int.negSucc n).repr.toList = '-' :: Nat.toDigits 10 (n + 1) := by
        rw [Int.repr, String.toList_append, Nat.toList_repr]
        rfl
      rw [htext, (readExponent?_toDigits (n + 1)).2]
      rfl

/-- A number is read from its sign, the digits on both sides of the point, and its power of ten. -/
theorem readNumeral?_eq {whole fraction : List Char} (hwhole : IsWhole whole)
    (hfraction : ∀ c ∈ fraction, isDigit c = true) (negative : Bool) (exponent : Option ℤ) :
    readNumeral? ((if negative then ['-'] else []) ++
        (whole ++ (pointed fraction ++ power exponent))) =
      some ⟨negative, digitsValue (whole ++ fraction), fraction.length, exponent⟩ := by
  have hpower := takeWhile_append hfraction (head?_power_not_digit exponent)
  have hpointed : ∀ c ∈ (pointed fraction ++ power exponent).head?, isDigit c = false := by
    cases fraction with
    | nil => exact head?_power_not_digit exponent
    | cons c fraction => simp [pointed, isDigit]
  obtain ⟨htake, hdrop⟩ := takeWhile_append hwhole.digits hpointed
  obtain ⟨c, rest, hcons⟩ := List.exists_cons_of_ne_nil hwhole.ne_nil
  set body := whole ++ (pointed fraction ++ power exponent) with hbody
  -- Without a sign of its own the literal begins with a digit, which is not taken for one.
  have hsign (rest : List Char) (h : body = '-' :: rest) : False := by
    rw [hbody, hcons, List.cons_append] at h
    have hdigit : isDigit c = true := hwhole.digits c (hcons ▸ List.mem_cons_self)
    exact (ne_sign_of_isDigit hdigit).1 (List.cons.inj h).1
  -- The reader looks at the sign, the point and the power of ten one after the other.
  by_cases hempty : fraction = []
  · subst hempty
    cases negative <;> cases exponent <;>
      simpa [readNumeral?, hsign, htake, hdrop, hwhole.ne_nil, pointed, power,
        readExponent?_repr] using hwhole.zero_alone
  · have hpoint : pointed fraction = '.' :: fraction := if_neg (by simpa using hempty)
    cases negative <;> cases exponent <;>
    · simp only [power, List.append_nil] at hpower
      simpa [readNumeral?, hsign, htake, hdrop, hwhole.ne_nil, hempty, hpoint, hpower, power,
        readExponent?_repr] using hwhole.zero_alone

theorem readNumeral?_writeNumeral (n : Numeral) : readNumeral? (writeNumeral n) = some n := by
  have hfraction (c : Char) (hc : c ∈ (paddedDigits n).drop (wholeLength n)) :
      isDigit c = true := isDigit_of_mem_paddedDigits (List.mem_of_mem_drop hc)
  have hlength : ((paddedDigits n).drop (wholeLength n)).length = n.fractionDigits := by
    have hlt := fractionDigits_lt_length n
    rw [List.length_drop, wholeLength]
    omega
  rw [writeNumeral_eq, readNumeral?_eq (isWhole_take n) hfraction, List.take_append_drop,
    digitsValue_paddedDigits, hlength]

theorem mem_writeNumeral {n : Numeral} {c : Char} (h : c ∈ writeNumeral n) :
    isDigit c = true ∨ c ∈ ['-', '.', 'e'] := by
  rw [writeNumeral_eq] at h
  simp only [List.mem_append] at h
  rcases h with hsign | hwhole | hpoint | hpower
  · split_ifs at hsign
    · simp_all
    · cases hsign
  · exact .inl (isDigit_of_mem_paddedDigits (List.mem_of_mem_take hwhole))
  · rw [pointed] at hpoint
    split_ifs at hpoint
    · cases hpoint
    · rcases List.mem_cons.mp hpoint with rfl | hfraction
      · simp
      · exact .inl (isDigit_of_mem_paddedDigits (List.mem_of_mem_drop hfraction))
  · cases hexponent : n.exponent with
    | none => simp [hexponent, power] at hpower
    | some e =>
        rw [hexponent, power] at hpower
        rcases List.mem_cons.mp hpower with rfl | hdigits
        · simp
        · cases e with
          | ofNat m => exact .inl (isDigit_of_mem_toDigits (Nat.toList_repr ▸ hdigits))
          | negSucc m =>
              rw [Int.repr, String.toList_append, Nat.toList_repr] at hdigits
              rcases List.mem_append.mp hdigits with hminus | hdigits
              · obtain rfl : c = '-' := by simpa using hminus
                simp
              · exact .inl (isDigit_of_mem_toDigits hdigits)

/-- A number stands in its literal without quotation marks, and is no other literal of that kind. -/
theorem readScalar?_writeNumeral (n : Numeral) :
    readScalar? (writeNumeral n) = some (.number n) := by
  have hother (word : List Char) (c : Char) (hc : c ∈ word) (hdigit : isDigit c = false)
      (hmark : c ∉ ['-', '.', 'e']) : writeNumeral n ≠ word := by
    rintro rfl
    rcases mem_writeNumeral hc with h | h
    · rw [hdigit] at h
      cases h
    · exact hmark h
  rw [readScalar?, if_neg (hother _ 'n' (by decide) (by decide) (by decide)),
    if_neg (hother _ 't' (by decide) (by decide) (by decide)),
    if_neg (hother _ 'f' (by decide) (by decide) (by decide)), readNumeral?_writeNumeral]
  rfl

end VendorScreen.Json
