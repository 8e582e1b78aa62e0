import Mathlib
import VendorScreen.Crc32

namespace VendorScreen.Crc32

open Polynomial
open Finset (range)

/-!
# The checksum as a remainder

The bits of a word are the coefficients of a polynomial over the field of two elements, and its
lowest bit stands for the highest power. A byte is taken in by multiplication with the eighth power
of the variable, modulo a generator. So apart from the complements at both ends, the checksum is the
remainder of the message.
-/

/-- The term of the bit with the given number, at the given power. -/
noncomputable def bitTerm (n bit power : ℕ) : (ZMod 2)[X] := if n.testBit bit then X ^ power else 0

noncomputable def polynomial (n : ℕ) : (ZMod 2)[X] := ∑ k ∈ range 32, bitTerm n k (31 - k)

noncomputable def bytePolynomial (byte : UInt8) : (ZMod 2)[X] :=
  ∑ k ∈ range 8, bitTerm byte.toNat k (7 - k)

/-- The bits of all bytes, those of the first byte at the highest powers. -/
noncomputable def message : List UInt8 → (ZMod 2)[X]
  | [] => 0
  | byte :: rest => X ^ (8 * rest.length) * bytePolynomial byte + message rest

noncomputable def generator : (ZMod 2)[X] :=
  X ^ 32 + X ^ 26 + X ^ 23 + X ^ 22 + X ^ 16 + X ^ 12 + X ^ 11 + X ^ 10 + X ^ 8 + X ^ 7 + X ^ 5 +
    X ^ 4 + X ^ 2 + X + 1

section terms

variable {n bit power s t : ℕ}

theorem bitTerm_xor (m n bit power : ℕ) :
    bitTerm (m ^^^ n) bit power = bitTerm m bit power + bitTerm n bit power := by
  rw [bitTerm, bitTerm, bitTerm, Nat.testBit_xor]
  cases m.testBit bit <;> cases n.testBit bit <;> simp [CharTwo.add_self_eq_zero]

theorem pow_mul_bitTerm (s n bit power : ℕ) :
    X ^ s * bitTerm n bit power = bitTerm n bit (s + power) := by
  rw [bitTerm, bitTerm, mul_ite, mul_zero, pow_add]

theorem bitTerm_shiftRight (n s bit power : ℕ) :
    bitTerm (n >>> s) bit power = bitTerm n (s + bit) power := by
  rw [bitTerm, bitTerm, Nat.testBit_shiftRight]

theorem bitTerm_eq_zero (h : n < 2 ^ bit) : bitTerm n bit power = 0 := by
  rw [bitTerm, Nat.testBit_lt_two_pow h]
  rfl

/-- A number of fewer bits has no terms beyond them. -/
theorem sum_bitTerm_eq (h : n < 2 ^ s) (power : ℕ → ℕ) :
    ∑ k ∈ range (s + t), bitTerm n k (power k) = ∑ k ∈ range s, bitTerm n k (power k) := by
  rw [Finset.sum_range_add, add_eq_left]
  apply Finset.sum_eq_zero
  intro k _
  exact bitTerm_eq_zero (h.trans_le (Nat.pow_le_pow_right Nat.two_pos (Nat.le_add_right s k)))

end terms

section words

variable {n s t : ℕ}

theorem polynomial_xor (m n : ℕ) : polynomial (m ^^^ n) = polynomial m + polynomial n := by
  simp only [polynomial, bitTerm_xor, Finset.sum_add_distrib]

theorem degree_polynomial_lt (n : ℕ) : (polynomial n).degree < 32 := by
  have hmem : polynomial n ∈ degreeLT (ZMod 2) 32 := by
    apply Submodule.sum_mem
    intro k hk
    rw [mem_degreeLT, bitTerm]
    split_ifs
    · rw [degree_X_pow]
      exact_mod_cast (Nat.sub_le 31 k).trans_lt (by decide)
    · rw [degree_zero]
      exact WithBot.bot_lt_coe 32
  exact mem_degreeLT.mp hmem

/-- The lowest bits leave the word at the highest powers, and the others move up. -/
theorem pow_mul_polynomial (hn : n < 2 ^ 32) (hst : s + t = 32) :
    X ^ s * polynomial n = ∑ k ∈ range s, bitTerm n k (31 + s - k) + polynomial (n >>> s) := by
  have hsum : X ^ s * polynomial n = ∑ k ∈ range (s + t), bitTerm n k (31 + s - k) := by
    rw [hst, polynomial, Finset.mul_sum]
    apply Finset.sum_congr rfl
    intro k hk
    have hle : k ≤ 31 := Nat.le_of_lt_succ (Finset.mem_range.mp hk)
    rw [pow_mul_bitTerm, ← Nat.add_sub_assoc hle, add_comm s 31]
  have hshifted : polynomial (n >>> s) =
      ∑ k ∈ range t, bitTerm n (s + k) (31 + s - (s + k)) := by
    have hlt : n >>> s < 2 ^ t := by
      rw [Nat.shiftRight_eq_div_pow, Nat.div_lt_iff_lt_mul (Nat.two_pow_pos s), ← pow_add, add_comm,
        hst]
      exact hn
    rw [polynomial, ← hst, add_comm s t, sum_bitTerm_eq hlt]
    apply Finset.sum_congr rfl
    intro k _
    rw [bitTerm_shiftRight, add_comm 31 s, Nat.add_sub_add_left]
  rw [hsum, hshifted, Finset.sum_range_add]

end words

/-- The word that is taken away is the generator without its highest power. -/
theorem polynomial_divisor : polynomial 0xedb88320 + X ^ 32 = generator := by
  simp [polynomial, Finset.sum_range_succ, bitTerm, Nat.testBit, generator]
  ring

theorem monic_generator : generator.Monic := by
  unfold generator
  monicity!

theorem degree_generator : generator.degree = 32 := by
  unfold generator
  compute_degree!

/-- One bit of the division: where the highest power is there, the generator is taken away. -/
theorem mul_polynomial_eq (r : UInt32) : X * polynomial r.toNat =
    polynomial (shift r).toNat + if r &&& 1 = 1 then generator else 0 := by
  have hbit : r &&& 1 = 1 ↔ r.toNat.testBit 0 = true := by
    rw [← UInt32.toNat_inj, UInt32.toNat_and, Nat.testBit_zero, decide_eq_true_iff]
    exact (Nat.and_one_is_mod r.toNat).congr_left
  have hshift : X * polynomial r.toNat =
      bitTerm r.toNat 0 32 + polynomial (r.toNat >>> 1) := by
    have hpow := pow_mul_polynomial r.toNat_lt (show 1 + 31 = 32 from rfl)
    rwa [pow_one, Finset.sum_range_one] at hpow
  have hmoved : (r >>> 1).toNat = r.toNat >>> 1 := UInt32.toNat_shiftRight r 1
  rw [hshift, shift, bitTerm]
  by_cases h : r &&& 1 = 1
  · have hdivisor : (0xedb88320 : UInt32).toNat = 0xedb88320 := rfl
    -- The word stands on both sides of the sum, and two times a bit is zero.
    have htwice : polynomial 0xedb88320 + polynomial 0xedb88320 = 0 := CharTwo.add_self_eq_zero _
    rw [if_pos (hbit.mp h), if_pos h, if_pos h, UInt32.toNat_xor, polynomial_xor, hmoved, hdivisor,
      ← polynomial_divisor]
    linear_combination -htwice
  · rw [if_neg (hbit.not.mp h), if_neg h, if_neg h, zero_add, add_zero, hmoved]

/-- The eight lowest bits leave the word together. -/
theorem pow_eight_mul_polynomial {n : ℕ} (hn : n < 2 ^ 32) :
    X ^ 8 * polynomial n = X ^ 8 * polynomial (n % 2 ^ 8) + polynomial (n >>> 8) := by
  have hlow : (n % 2 ^ 8) >>> 8 = 0 := by
    rw [Nat.shiftRight_eq_div_pow]
    exact Nat.div_eq_of_lt (Nat.mod_lt n (by decide))
  have hzero : polynomial 0 = 0 := by simp [polynomial, bitTerm]
  have hterms (k : ℕ) (hk : k ∈ range 8) : bitTerm (n % 2 ^ 8) k (31 + 8 - k) =
      bitTerm n k (31 + 8 - k) := by
    have hlt : k < 8 := Finset.mem_range.mp hk
    rw [bitTerm, bitTerm, Nat.testBit_mod_two_pow, decide_eq_true hlt, Bool.true_and]
  rw [pow_mul_polynomial hn (show 8 + 24 = 32 from rfl),
    pow_mul_polynomial ((Nat.mod_le n _).trans_lt hn) (show 8 + 24 = 32 from rfl), hlow, hzero,
    add_zero, Finset.sum_congr rfl hterms]

theorem polynomial_byte (byte : UInt8) :
    polynomial byte.toNat = X ^ 24 * bytePolynomial byte := by
  have hbyte : byte.toNat < 2 ^ 8 := byte.toNat_lt
  rw [polynomial, show 32 = 8 + 24 from rfl, sum_bitTerm_eq hbyte, bytePolynomial, Finset.mul_sum]
  apply Finset.sum_congr rfl
  intro k hk
  have hlt := Finset.mem_range.mp hk
  rw [pow_mul_bitTerm]
  congr 1
  omega

theorem getD_table {index : UInt32} (h : index.toNat < 256) :
    table.getD index.toNat 0 = byteRemainder index := by
  simp [table, Array.getD, h]

theorem toNat_and_low (r : UInt32) : (r &&& 0xff).toNat = r.toNat % 2 ^ 8 := by
  rw [UInt32.toNat_and]
  exact Nat.and_two_pow_sub_one_eq_mod _ 8

/-- A table lookup does what eight single bits of the division do. -/
theorem update_eq (r : UInt32) (byte : UInt8) :
    update r byte = byteRemainder ((r ^^^ byte.toUInt32) &&& 0xff) ^^^ (r >>> 8) := by
  rw [update, getD_table]
  rw [toNat_and_low]
  exact Nat.mod_lt _ (by decide)

/-! ## Modulo the generator -/

open AdjoinRoot (mk)

noncomputable def residue (r : UInt32) : AdjoinRoot generator := mk generator (polynomial r.toNat)

theorem residue_xor (r r' : UInt32) : residue (r ^^^ r') = residue r + residue r' := by
  rw [residue, UInt32.toNat_xor, polynomial_xor, map_add]
  rfl

theorem residue_shift (r : UInt32) : residue (shift r) = mk generator X * residue r := by
  rw [residue, residue, ← map_mul, mul_polynomial_eq, map_add]
  split_ifs
  · rw [AdjoinRoot.mk_self, add_zero]
  · rw [map_zero, add_zero]

theorem residue_byteRemainder (r : UInt32) :
    residue (byteRemainder r) = mk generator X ^ 8 * residue r := by
  simp only [byteRemainder, residue_shift]
  ring

theorem residue_update (r : UInt32) (byte : UInt8) : residue (update r byte) =
    mk generator X ^ 8 * residue r +
      mk generator X ^ 32 * mk generator (bytePolynomial byte) := by
  have hbyte : residue byte.toUInt32 =
      mk generator X ^ 24 * mk generator (bytePolynomial byte) := by
    rw [residue, UInt8.toNat_toUInt32, polynomial_byte, map_mul, map_pow]
  -- Only the lowest byte is looked up. The others move on, and the byte taken in has none of them.
  have hsplit : mk generator X ^ 8 * residue (r ^^^ byte.toUInt32) =
      mk generator X ^ 8 * residue ((r ^^^ byte.toUInt32) &&& 0xff) + residue (r >>> 8) := by
    have hhigh : (r ^^^ byte.toUInt32).toNat >>> 8 = (r >>> 8).toNat := by
      have hzero : byte.toNat >>> 8 = 0 := by
        rw [Nat.shiftRight_eq_div_pow]
        exact Nat.div_eq_of_lt byte.toNat_lt
      rw [UInt32.toNat_xor, Nat.shiftRight_xor_distrib, UInt8.toNat_toUInt32, hzero, Nat.xor_zero]
      exact (UInt32.toNat_shiftRight r 8).symm
    rw [residue, residue, residue, toNat_and_low, ← map_pow, ← map_mul, ← map_mul, ← map_add,
      pow_eight_mul_polynomial (UInt32.toNat_lt _), hhigh]
  rw [update_eq, residue_xor, residue_byteRemainder, ← hsplit, residue_xor, hbyte]
  ring

theorem residue_foldl (r : UInt32) (bytes : List UInt8) : residue (bytes.foldl update r) =
    mk generator X ^ (8 * bytes.length) * residue r +
      mk generator X ^ 32 * mk generator (message bytes) := by
  induction bytes generalizing r with
  | nil => simp [message]
  | cons byte bytes ih =>
      rw [List.foldl_cons, ih, residue_update, message, map_add, map_mul, map_pow,
        List.length_cons]
      ring

/-- The loop of the fold goes over what is left of the list. -/
theorem loop_eq (b : ByteArray) {left start : ℕ} (h : start + left = b.size) (r : UInt32) :
    (ByteArray.foldlM.loop (fun r byte => (pure (update r byte) : Id UInt32)) b b.size le_rfl left
      start r).run = (b.data.toList.drop start).foldl update r := by
  induction left generalizing start r with
  | zero =>
      rw [ByteArray.foldlM.loop, dif_neg (by omega), List.drop_of_length_le]
      · rfl
      · exact h.ge
  | succ left ih =>
      have hlt : start < b.data.toList.length := by
        rw [Array.length_toList]
        exact Nat.lt_of_lt_of_eq (by omega) h
      rw [ByteArray.foldlM.loop, dif_pos (by omega), List.drop_eq_getElem_cons hlt, List.foldl_cons]
      exact ih (by omega) _

theorem foldl_eq (b : ByteArray) (r : UInt32) :
    b.foldl update r = b.data.toList.foldl update r := by
  unfold ByteArray.foldl ByteArray.foldlM
  rw [dif_pos le_rfl]
  exact loop_eq b (Nat.zero_add _) r

/-- The checksum is the remainder of the message times the thirty-second power, where the first 32
bits of the message and all bits of the remainder are complemented. -/
theorem polynomial_checksum (b : ByteArray) : polynomial (checksum b).toNat =
    (X ^ (8 * b.size) * polynomial 0xffffffff + X ^ 32 * message b.data.toList) %ₘ generator +
      polynomial 0xffffffff := by
  have hresidue := residue_foldl 0xffffffff b.data.toList
  have hdvd : mk generator (X ^ (8 * b.size) * polynomial 0xffffffff +
      X ^ 32 * message b.data.toList) =
        mk generator (polynomial (b.foldl update 0xffffffff).toNat) := by
    rw [map_add, map_mul, map_mul, map_pow, map_pow, foldl_eq]
    exact hresidue.symm
  have hself : polynomial (b.foldl update 0xffffffff).toNat %ₘ generator =
      polynomial (b.foldl update 0xffffffff).toNat := by
    rw [modByMonic_eq_self_iff monic_generator, degree_generator]
    exact degree_polynomial_lt _
  rw [checksum, UInt32.toNat_xor, polynomial_xor,
    modByMonic_eq_of_dvd_sub monic_generator (AdjoinRoot.mk_eq_mk.mp hdvd), hself]
  rfl

/-- The bytes of the digits from one to nine. -/
example : checksum "123456789".toUTF8 = 0xcbf43926 := by decide +kernel

end VendorScreen.Crc32
