import VendorScreen.Deflate.BitCursor
import VendorScreen.Proofs.ByteRuns

namespace VendorScreen.Deflate

/-!
# Rows of bits

Compressed data are laid out by saying which bits stand where. Numbers are written with their lowest
bit first and code words with their highest, and a row of bits that stands at a byte boundary stands
there as bytes.
-/

/-- The `width` lowest bits of a number, the lowest first. -/
def lowBits (n width : ℕ) : List Bool := (List.range width).map n.testBit

/-- The `width` lowest bits of a number, the highest first. -/
def highBits (n width : ℕ) : List Bool := (lowBits n width).reverse

/-- The bits of some bytes, in the order in which they are read. -/
def bitsOf (bytes : List UInt8) : List Bool := bytes.flatMap fun byte => lowBits byte.toNat 8

@[simp] theorem length_lowBits (n width : ℕ) : (lowBits n width).length = width := by
  simp [lowBits]

@[simp] theorem length_highBits (n width : ℕ) : (highBits n width).length = width := by
  simp [highBits]

@[simp] theorem length_bitsOf (bytes : List UInt8) : (bitsOf bytes).length = 8 * bytes.length := by
  simp [bitsOf, List.length_flatMap, Nat.mul_comm]

theorem lowBits_succ (n width : ℕ) :
    lowBits n (width + 1) = n.testBit 0 :: lowBits (n / 2) width := by
  simp [lowBits, List.range_succ_eq_map, Function.comp_def, Nat.testBit_succ]

theorem lowBits_add (n low high : ℕ) :
    lowBits n (low + high) = lowBits n low ++ lowBits (n / 2 ^ low) high := by
  simp [lowBits, List.range_add, Function.comp_def, Nat.testBit_div_two_pow, Nat.add_comm]

theorem highBits_add (n high low : ℕ) :
    highBits n (high + low) = highBits (n / 2 ^ low) high ++ highBits n low := by
  rw [highBits, Nat.add_comm, lowBits_add, List.reverse_append]
  rfl

theorem lowBits_inj {n m width : ℕ} (hn : n < 2 ^ width) (hm : m < 2 ^ width)
    (h : lowBits n width = lowBits m width) : n = m := by
  apply Nat.eq_of_testBit_eq
  intro k
  by_cases hk : k < width
  · exact List.map_inj_left.mp h k (List.mem_range.mpr hk)
  · have hpow : 2 ^ width ≤ 2 ^ k := Nat.pow_le_pow_right (by decide) (Nat.le_of_not_lt hk)
    rw [Nat.testBit_lt_two_pow (hn.trans_le hpow), Nat.testBit_lt_two_pow (hm.trans_le hpow)]

theorem highBits_inj {n m width : ℕ} (hn : n < 2 ^ width) (hm : m < 2 ^ width)
    (h : highBits n width = highBits m width) : n = m :=
  lowBits_inj hn hm (List.reverse_injective h)

namespace BitCursor

variable {c : BitCursor} {bits more : List Bool}

def advance (c : BitCursor) (count : ℕ) : BitCursor := { c with position := c.position + count }

@[simp] theorem advance_zero (c : BitCursor) : c.advance 0 = c := rfl

@[simp] theorem advance_advance (c : BitCursor) (n m : ℕ) :
    (c.advance n).advance m = c.advance (n + m) := by
  simp [advance, Nat.add_assoc]

def Shows (c : BitCursor) : List Bool → Prop
  | [] => True
  | bit :: bits => c.next? = some (bit, c.advance 1) ∧ (c.advance 1).Shows bits

theorem shows_cons {bit : Bool} :
    c.Shows (bit :: bits) ↔ c.next? = some (bit, c.advance 1) ∧ (c.advance 1).Shows bits :=
  Iff.rfl

theorem shows_append :
    c.Shows (bits ++ more) ↔ c.Shows bits ∧ (c.advance bits.length).Shows more := by
  induction bits generalizing c with
  | nil => simp [Shows]
  | cons bit bits ih =>
      rw [List.cons_append, shows_cons, shows_cons, ih, and_assoc, advance_advance,
        List.length_cons, Nat.add_comm 1]

theorem shows_iff_getElem : c.Shows bits ↔ ∀ (k : ℕ) (hk : k < bits.length),
    (c.advance k).next? = some (bits[k], c.advance (k + 1)) := by
  induction bits generalizing c with
  | nil => simp [Shows]
  | cons bit bits ih =>
      rw [shows_cons, ih]
      constructor
      · rintro ⟨hfirst, hlater⟩ (_ | k) hk
        · exact hfirst
        · have hbit := hlater k (Nat.lt_of_succ_lt_succ hk)
          rw [advance_advance, advance_advance, Nat.add_comm 1, Nat.add_comm 1] at hbit
          exact hbit
      · intro h
        refine ⟨h 0 (Nat.succ_pos _), fun k hk => ?_⟩
        rw [advance_advance, advance_advance, Nat.add_comm 1, Nat.add_comm 1]
        exact h (k + 1) (Nat.succ_lt_succ hk)

theorem bits?_of_shows {n width : ℕ} (hn : n < 2 ^ width) (h : c.Shows (lowBits n width)) :
    c.bits? width = some (n, c.advance width) := by
  induction width generalizing c n with
  | zero =>
      obtain rfl : n = 0 := by simpa using hn
      rfl
  | succ width ih =>
      rw [lowBits_succ, shows_cons] at h
      have hhalf : n / 2 < 2 ^ width := by
        rw [Nat.pow_succ] at hn
        omega
      have hsplit : (n.testBit 0).toNat + 2 * (n / 2) = n := by
        rw [Nat.toNat_testBit, pow_zero, Nat.div_one]
        exact Nat.mod_add_div n 2
      simp only [bits?, h.1, ih hhalf h.2, Option.bind_eq_bind, Option.bind_some,
        Option.pure_def, advance_advance, hsplit, Nat.add_comm 1]

section bytes

variable {data : ByteArray} {start : ℕ}

theorem next?_in_byte {byte : UInt8} (h : data[start]? = some byte) {k : ℕ} (hk : k < 8) :
    (BitCursor.mk data (8 * start + k)).next? =
      some (byte.toNat.testBit k, ⟨data, 8 * start + k + 1⟩) := by
  have hplace : (8 * start + k) / 8 = start := by omega
  have hrest : (8 * start + k) % 8 = k := by omega
  simp only [next?, hplace, hrest, h]

theorem shows_byte_iff {byte : UInt8} :
    (BitCursor.mk data (8 * start)).Shows (lowBits byte.toNat 8) ↔ data[start]? = some byte := by
  rw [shows_iff_getElem]
  constructor
  · intro h
    cases hbyte : data[start]? with
    | none =>
        have hfirst := h 0 (by simp)
        simp [next?, hbyte] at hfirst
    | some actual =>
        -- the byte that stands there shows the same bits
        have hbits : lowBits actual.toNat 8 = lowBits byte.toNat 8 := by
          refine List.ext_getElem (by simp) fun k hk hk' => ?_
          have hnext := h k hk'
          rw [advance, next?_in_byte hbyte (by simpa using hk)] at hnext
          simpa [lowBits] using congrArg (Option.map Prod.fst) hnext
        rw [UInt8.toNat_inj.mp (lowBits_inj actual.toNat_lt byte.toNat_lt hbits)]
  · intro h k hk
    rw [advance, next?_in_byte h (by simpa using hk)]
    simp [lowBits, advance, Nat.add_assoc]

/-- Whole bytes are shown where they stand. -/
theorem shows_bitsOf_iff {bytes : List UInt8} :
    (BitCursor.mk data (8 * start)).Shows (bitsOf bytes) ↔ Bytes.Holds data start bytes := by
  induction bytes generalizing start with
  | nil => simp [bitsOf, Shows]
  | cons byte bytes ih =>
      have hnext : (BitCursor.mk data (8 * start)).advance 8 = ⟨data, 8 * (start + 1)⟩ := by
        rw [advance, Nat.mul_add]
      rw [bitsOf, List.flatMap_cons, shows_append, length_lowBits, hnext, shows_byte_iff,
        Bytes.holds_cons]
      exact and_congr_right fun _ => ih

end bytes

/-- A cursor in front of all the data shows what their bits begin with. -/
theorem shows_of_isPrefix {data : ByteArray} (h : bits <+: bitsOf data.data.toList) :
    (BitCursor.mk data 0).Shows bits := by
  have hall : Bytes.Holds data 0 data.data.toList := by
    have hdata := Bytes.holds_toByteArray [] data.data.toList []
    have hsame : ([] ++ (data.data.toList ++ [])).toByteArray = data :=
      ByteArray.ext (by simp [List.data_toByteArray])
    rwa [hsame] at hdata
  obtain ⟨rest, hrest⟩ := h
  have hshown : (BitCursor.mk data 0).Shows (bitsOf data.data.toList) := shows_bitsOf_iff.mpr hall
  rw [← hrest, shows_append] at hshown
  exact hshown.1

end BitCursor

end VendorScreen.Deflate
