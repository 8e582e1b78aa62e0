import Mathlib
import VendorScreen.Base64

namespace VendorScreen.Base64

/-!
# The standard form of base 64

The bits of the bytes are read six at a time, the last group is filled up with zeros, and the text
is padded to a multiple of four characters. Encoding writes this form, and decoding reads it back.
-/

/-- The bits of a byte, the most significant one first. -/
def bits (a : UInt8) : List ℕ :=
  [a.toNat / 128 % 2, a.toNat / 64 % 2, a.toNat / 32 % 2, a.toNat / 16 % 2, a.toNat / 8 % 2,
    a.toNat / 4 % 2, a.toNat / 2 % 2, a.toNat % 2]

def number (bits : List ℕ) : ℕ := bits.foldl (fun n bit => 2 * n + bit) 0

def sextets : List ℕ → List ℕ
  | [] => []
  | a :: b :: c :: d :: e :: f :: rest => number [a, b, c, d, e, f] :: sextets rest
  | rest => [number (rest ++ List.replicate (6 - rest.length) 0)]

/-- The text is the standard padded form of the bytes. -/
structure IsStandard (text : String) (b : ByteArray) : Prop where
  isMultiple : 4 ∣ text.length
  digits : ∃ padding < 3, text.toList =
    (sextets (b.data.toList.flatMap bits)).map digit ++ List.replicate padding '='

theorem encodeOnto_eq_append : ∀ (done : List Char) (bytes : List UInt8),
    encodeOnto done bytes = done.reverse ++ encodeOnto [] bytes
  | done, [] => by simp [encodeOnto]
  | done, [a] => by simp [encodeOnto]
  | done, [a, b] => by simp [encodeOnto]
  | done, a :: b :: c :: rest => by
      rw [encodeOnto, encodeOnto, encodeOnto_eq_append (_ ++ done) rest,
        encodeOnto_eq_append (_ ++ []) rest]
      simp

theorem encodeOnto_cons₃ (a b c : UInt8) (rest : List UInt8) :
    encodeOnto [] (a :: b :: c :: rest) =
      group (a.toNat * 65536 + b.toNat * 256 + c.toNat) 4 ++ encodeOnto [] rest := by
  rw [encodeOnto, encodeOnto_eq_append]
  simp

section bits

variable (a b c : UInt8)

theorem number_first : number [a.toNat / 128 % 2, a.toNat / 64 % 2, a.toNat / 32 % 2,
    a.toNat / 16 % 2, a.toNat / 8 % 2, a.toNat / 4 % 2] = a.toNat / 4 := by
  have ha := a.toNat_lt
  simp only [number, List.foldl_cons, List.foldl_nil]
  omega

theorem number_second : number [a.toNat / 2 % 2, a.toNat % 2, b.toNat / 128 % 2, b.toNat / 64 % 2,
    b.toNat / 32 % 2, b.toNat / 16 % 2] = a.toNat % 4 * 16 + b.toNat / 16 := by
  have hb := b.toNat_lt
  have hlow : 2 * (a.toNat / 2 % 2) + a.toNat % 2 = a.toNat % 4 := by omega
  simp only [number, List.foldl_cons, List.foldl_nil, Nat.mul_zero, Nat.zero_add, hlow]
  omega

theorem number_third : number [b.toNat / 8 % 2, b.toNat / 4 % 2, b.toNat / 2 % 2, b.toNat % 2,
    c.toNat / 128 % 2, c.toNat / 64 % 2] = b.toNat % 16 * 4 + c.toNat / 64 := by
  have hc := c.toNat_lt
  have hlow : 2 * (2 * (2 * (b.toNat / 8 % 2) + b.toNat / 4 % 2) + b.toNat / 2 % 2) + b.toNat % 2 =
      b.toNat % 16 := by
    omega
  simp only [number, List.foldl_cons, List.foldl_nil, Nat.mul_zero, Nat.zero_add, hlow]
  omega

theorem number_fourth : number [c.toNat / 32 % 2, c.toNat / 16 % 2, c.toNat / 8 % 2,
    c.toNat / 4 % 2, c.toNat / 2 % 2, c.toNat % 2] = c.toNat % 64 := by
  simp only [number, List.foldl_cons, List.foldl_nil]
  omega

theorem sextets_bits₃ (rest : List ℕ) : sextets (bits a ++ (bits b ++ (bits c ++ rest))) =
    a.toNat / 4 :: (a.toNat % 4 * 16 + b.toNat / 16) :: (b.toNat % 16 * 4 + c.toNat / 64) ::
      c.toNat % 64 :: sextets rest := by
  simp only [bits, List.cons_append, List.nil_append, sextets, number_first, number_second,
    number_third, number_fourth]

theorem sextets_bits₂ : sextets (bits a ++ bits b) =
    [a.toNat / 4, a.toNat % 4 * 16 + b.toNat / 16, b.toNat % 16 * 4] := by
  have hlast : number [b.toNat / 8 % 2, b.toNat / 4 % 2, b.toNat / 2 % 2, b.toNat % 2, 0, 0] =
      b.toNat % 16 * 4 := number_third b 0
  simp only [bits, List.cons_append, List.nil_append, sextets, number_first, number_second,
    List.length_cons, List.length_nil, Nat.reduceAdd, Nat.reduceSub, List.replicate, hlast]

theorem sextets_bits₁ : sextets (bits a) = [a.toNat / 4, a.toNat % 4 * 16] := by
  have hlast : number [a.toNat / 2 % 2, a.toNat % 2, 0, 0, 0, 0] = a.toNat % 4 * 16 :=
    number_second a 0
  simp only [bits, List.cons_append, List.nil_append, sextets, number_first,
    List.length_cons, List.length_nil, Nat.reduceAdd, Nat.reduceSub, List.replicate, hlast]

theorem group_eq₃ : group (a.toNat * 65536 + b.toNat * 256 + c.toNat) 4 =
    [a.toNat / 4, a.toNat % 4 * 16 + b.toNat / 16, b.toNat % 16 * 4 + c.toNat / 64,
      c.toNat % 64].map digit := by
  have ha := a.toNat_lt
  have hb := b.toNat_lt
  have hc := c.toNat_lt
  have h₁ : (a.toNat * 65536 + b.toNat * 256 + c.toNat) / 262144 % 64 = a.toNat / 4 := by omega
  have h₂ : (a.toNat * 65536 + b.toNat * 256 + c.toNat) / 4096 % 64 =
      a.toNat % 4 * 16 + b.toNat / 16 := by omega
  have h₃ : (a.toNat * 65536 + b.toNat * 256 + c.toNat) / 64 % 64 =
      b.toNat % 16 * 4 + c.toNat / 64 := by omega
  have h₄ : (a.toNat * 65536 + b.toNat * 256 + c.toNat) % 64 = c.toNat % 64 := by omega
  simp only [group, h₁, h₂, h₃, h₄, Nat.reduceLT, if_false, List.map_cons, List.map_nil]

theorem group_eq₂ : group (a.toNat * 65536 + b.toNat * 256) 3 =
    [a.toNat / 4, a.toNat % 4 * 16 + b.toNat / 16, b.toNat % 16 * 4].map digit ++ ['='] := by
  have ha := a.toNat_lt
  have hb := b.toNat_lt
  have h₁ : (a.toNat * 65536 + b.toNat * 256) / 262144 % 64 = a.toNat / 4 := by omega
  have h₂ : (a.toNat * 65536 + b.toNat * 256) / 4096 % 64 =
      a.toNat % 4 * 16 + b.toNat / 16 := by omega
  have h₃ : (a.toNat * 65536 + b.toNat * 256) / 64 % 64 = b.toNat % 16 * 4 := by omega
  simp only [group, h₁, h₂, h₃, Nat.reduceLT, if_false, if_true, List.map_cons, List.map_nil,
    List.cons_append, List.nil_append]

theorem group_eq₁ : group (a.toNat * 65536) 2 =
    [a.toNat / 4, a.toNat % 4 * 16].map digit ++ ['=', '='] := by
  have ha := a.toNat_lt
  have h₁ : a.toNat * 65536 / 262144 % 64 = a.toNat / 4 := by omega
  have h₂ : a.toNat * 65536 / 4096 % 64 = a.toNat % 4 * 16 := by omega
  simp only [group, h₁, h₂, Nat.reduceLT, if_true, List.map_cons, List.map_nil, List.cons_append,
    List.nil_append]

end bits

@[simp] theorem length_group (n kept : ℕ) : (group n kept).length = 4 := rfl

theorem encodeOnto_eq_sextets : ∀ bytes : List UInt8, ∃ padding < 3,
    4 ∣ (encodeOnto [] bytes).length ∧
      encodeOnto [] bytes =
        (sextets (bytes.flatMap bits)).map digit ++ List.replicate padding '='
  | [] => ⟨0, by simp [encodeOnto, sextets]⟩
  | [a] => ⟨2, by simp, by simp [encodeOnto], by simp [encodeOnto, sextets_bits₁, group_eq₁]⟩
  | [a, b] => ⟨1, by simp, by simp [encodeOnto], by simp [encodeOnto, sextets_bits₂, group_eq₂]⟩
  | a :: b :: c :: rest => by
      obtain ⟨padding, hpadding, hlength, hrest⟩ := encodeOnto_eq_sextets rest
      refine ⟨padding, hpadding, ?_, ?_⟩
      · rw [encodeOnto_cons₃, List.length_append, length_group]
        exact (Nat.dvd_add_right (Nat.dvd_refl 4)).mpr hlength
      · rw [encodeOnto_cons₃, group_eq₃, hrest]
        simp only [List.flatMap_cons, sextets_bits₃, List.map_cons, List.map_nil, List.cons_append,
          List.nil_append]

/-- Encoding writes the standard form. -/
theorem isStandard_encode (b : ByteArray) : IsStandard (encode b) b := by
  obtain ⟨padding, hpadding, hlength, hdigits⟩ := encodeOnto_eq_sextets b.data.toList
  refine ⟨?_, padding, hpadding, ?_⟩
  · rwa [encode, String.length_ofList]
  · rwa [encode, String.toList_ofList]

theorem value?_of_mem_zipIdx : ∀ p ∈ alphabet.zipIdx, value? p.1 = some p.2 := by
  decide +kernel

theorem value?_digit {n : ℕ} (h : n < 64) : value? (digit n) = some n := by
  have hlength : n < alphabet.length := h
  have hmem : (alphabet[n], n) ∈ alphabet.zipIdx := List.mk_mem_zipIdx_iff_getElem?.mpr (by simp)
  rw [digit, List.getD_eq_getElem _ _ hlength]
  exact value?_of_mem_zipIdx _ hmem

theorem digit_ne_pad {n : ℕ} (h : n < 64) : digit n ≠ '=' := by
  intro heq
  have hvalue := value?_digit h
  rw [heq] at hvalue
  simp [value?] at hvalue

theorem toUInt8_eq {n : ℕ} {a : UInt8} (h : n = a.toNat) : n.toUInt8 = a := by
  subst h
  exact UInt8.ofNat_toNat

theorem decodeOnto?_group₃ (done : ByteArray) (a b c : UInt8) (rest : List Char) :
    decodeOnto? done (group (a.toNat * 65536 + b.toNat * 256 + c.toNat) 4 ++ rest) =
      decodeOnto? (((done.push a).push b).push c) rest := by
  have ha := a.toNat_lt
  have hb := b.toNat_lt
  have hc := c.toNat_lt
  have hv₁ := value?_digit (show a.toNat / 4 < 64 by omega)
  have hv₂ := value?_digit (show a.toNat % 4 * 16 + b.toNat / 16 < 64 by omega)
  have hv₃ := value?_digit (show b.toNat % 16 * 4 + c.toNat / 64 < 64 by omega)
  have hv₄ := value?_digit (show c.toNat % 64 < 64 by omega)
  have hpad := digit_ne_pad (show c.toNat % 64 < 64 by omega)
  have hjoin : ((a.toNat / 4 * 64 + (a.toNat % 4 * 16 + b.toNat / 16)) * 64 +
      (b.toNat % 16 * 4 + c.toNat / 64)) * 64 + c.toNat % 64 =
        a.toNat * 65536 + b.toNat * 256 + c.toNat := by
    omega
  have h₁ : ((a.toNat * 65536 + b.toNat * 256 + c.toNat) / 65536).toUInt8 = a :=
    toUInt8_eq (by omega)
  have h₂ : ((a.toNat * 65536 + b.toNat * 256 + c.toNat) / 256 % 256).toUInt8 = b :=
    toUInt8_eq (by omega)
  have h₃ : ((a.toNat * 65536 + b.toNat * 256 + c.toNat) % 256).toUInt8 = c :=
    toUInt8_eq (by omega)
  rw [group_eq₃]
  simp only [List.map_cons, List.map_nil, List.cons_append, List.nil_append]
  rw [decodeOnto?]
  · simp only [hv₁, hv₂, hv₃, hv₄, Option.bind_eq_bind, Option.bind_some, hjoin, h₁, h₂, h₃]
  · simp [hpad]
  · simp [hpad]

theorem decodeOnto?_group₂ (done : ByteArray) (a b : UInt8) :
    decodeOnto? done (group (a.toNat * 65536 + b.toNat * 256) 3) =
      some ((done.push a).push b) := by
  have ha := a.toNat_lt
  have hb := b.toNat_lt
  have hv₁ := value?_digit (show a.toNat / 4 < 64 by omega)
  have hv₂ := value?_digit (show a.toNat % 4 * 16 + b.toNat / 16 < 64 by omega)
  have hv₃ := value?_digit (show b.toNat % 16 * 4 < 64 by omega)
  have hpad := digit_ne_pad (show b.toNat % 16 * 4 < 64 by omega)
  have hjoin : (a.toNat / 4 * 64 + (a.toNat % 4 * 16 + b.toNat / 16)) * 64 + b.toNat % 16 * 4 =
      a.toNat * 1024 + b.toNat * 4 := by
    omega
  have hzero : (a.toNat * 1024 + b.toNat * 4) % 4 = 0 := by omega
  have h₁ : ((a.toNat * 1024 + b.toNat * 4) / 1024).toUInt8 = a := toUInt8_eq (by omega)
  have h₂ : ((a.toNat * 1024 + b.toNat * 4) / 4 % 256).toUInt8 = b := toUInt8_eq (by omega)
  rw [group_eq₂]
  simp only [List.map_cons, List.map_nil, List.cons_append, List.nil_append]
  rw [decodeOnto?]
  · simp only [hv₁, hv₂, hv₃, Option.bind_eq_bind, Option.bind_some, hjoin, hzero, h₁, h₂, if_true]
  · simp [hpad]

theorem decodeOnto?_group₁ (done : ByteArray) (a : UInt8) :
    decodeOnto? done (group (a.toNat * 65536) 2) = some (done.push a) := by
  have ha := a.toNat_lt
  have hv₁ := value?_digit (show a.toNat / 4 < 64 by omega)
  have hv₂ := value?_digit (show a.toNat % 4 * 16 < 64 by omega)
  have hjoin : a.toNat / 4 * 64 + a.toNat % 4 * 16 = a.toNat * 16 := by omega
  have hzero : a.toNat * 16 % 16 = 0 := by omega
  have h₁ : (a.toNat * 16 / 16).toUInt8 = a := toUInt8_eq (by omega)
  rw [group_eq₁]
  simp only [List.map_cons, List.map_nil, List.cons_append, List.nil_append]
  rw [decodeOnto?]
  simp only [hv₁, hv₂, Option.bind_eq_bind, Option.bind_some, hjoin, hzero, h₁, if_true]

theorem decodeOnto?_encodeOnto : ∀ (done : ByteArray) (bytes : List UInt8),
    decodeOnto? done (encodeOnto [] bytes) = some (bytes.foldl ByteArray.push done)
  | done, [] => by simp [encodeOnto, decodeOnto?]
  | done, [a] => by simpa [encodeOnto] using decodeOnto?_group₁ done a
  | done, [a, b] => by simpa [encodeOnto] using decodeOnto?_group₂ done a b
  | done, a :: b :: c :: rest => by
      rw [encodeOnto_cons₃, decodeOnto?_group₃, decodeOnto?_encodeOnto _ rest]
      rfl

theorem data_foldl_push (bytes : List UInt8) (done : ByteArray) :
    (bytes.foldl ByteArray.push done).data = done.data ++ bytes.toArray := by
  induction bytes generalizing done with
  | nil => simp
  | cons a rest ih =>
      rw [List.foldl_cons, ih, ByteArray.data_push]
      simp

/-- Decoding reads back what was encoded. -/
theorem decode?_encode (b : ByteArray) : decode? (encode b) = some b := by
  rw [decode?, encode, String.toList_ofList, decodeOnto?_encodeOnto]
  refine congrArg some (ByteArray.ext ?_)
  rw [data_foldl_push]
  simp

end VendorScreen.Base64
