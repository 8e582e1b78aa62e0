import VendorScreen.Deflate.Inflate
import VendorScreen.Proofs.Steps

namespace VendorScreen.Deflate

/-!
# How far compressed data can expand

A match takes at least one bit for its length and one for its distance, and copies at most 258
bytes. So no bit is worth more than 129 bytes, and no byte of compressed data more than 1032.
-/

/-- The most bytes that a single bit can be worth. -/
def bitYield : ℕ := 129

/-- The bits that are still to be read after a stage. A fault leaves none. -/
def Stage.bitsLeft (s : Stage BitCursor) : ℕ :=
  match s.next with
  | .ok c => c.remaining
  | .error _ => 0

theorem BitCursor.lt_of_bits? {c c' : BitCursor} {count n : ℕ} (h : c.bits? count = some (n, c')) :
    n < 2 ^ count := by
  induction count generalizing c c' n with
  | zero =>
      obtain ⟨rfl, -⟩ := Prod.mk.inj (Option.some.inj h)
      exact Nat.one_pos
  | succ count ih =>
      simp only [bits?, Option.bind_eq_bind, Option.bind_eq_some_iff] at h
      obtain ⟨⟨bit, c₁⟩, -, ⟨high, c₂⟩, hhigh, hn⟩ := h
      simp only [Option.pure_def, Option.some.injEq, Prod.mk.injEq] at hn
      have hbit : bit.toNat ≤ 1 := Bool.toNat_le bit
      have hless := ih hhigh
      rw [pow_succ]
      omega

theorem le_of_extended_lengthSteps {i length : ℕ} {c c' : BitCursor}
    (h : extended lengthSteps i c = .ok (length, c')) : length ≤ 258 := by
  have hsteps : ∀ step ∈ lengthSteps, step.1 + 2 ^ step.2 ≤ 259 := by decide
  unfold extended at h
  split at h
  · simp at h
  · rename_i base extra hstep
    split at h
    · simp at h
    · rename_i n rest hbits
      simp only [Except.ok.injEq, Prod.mk.injEq] at h
      have hless := BitCursor.lt_of_bits? hbits
      have hbound := hsteps _ (List.mem_of_getElem? hstep)
      dsimp only at hbound
      omega

theorem length_le_of_matchAt {distances : PrefixCode} {i length distance : ℕ} {c c' : BitCursor}
    (h : matchAt distances i c = .ok (length, distance, c')) : length ≤ 258 := by
  unfold matchAt at h
  obtain ⟨first, hlength, h⟩ := bind_eq_ok_iff.mp h
  obtain ⟨second, -, h⟩ := bind_eq_ok_iff.mp h
  obtain ⟨third, -, h⟩ := bind_eq_ok_iff.mp h
  obtain ⟨rfl, -⟩ := Prod.mk.inj (Except.ok.inj h)
  exact le_of_extended_lengthSteps hlength

@[simp] theorem size_copyMatch (output : ByteArray) (distance length : ℕ) :
    (copyMatch output distance length).size = output.size + length := by
  induction length generalizing output with
  | zero => rfl
  | succ length ih =>
      rw [copyMatch, ih, ByteArray.size_push]
      omega

/-- Each literal takes a bit and each match two. -/
theorem size_symbols_le (literals distances : PrefixCode) (c : BitCursor) (output : ByteArray) :
    (symbols literals distances c output).output.size
        + bitYield * (symbols literals distances c output).bitsLeft ≤
      output.size + bitYield * c.remaining := by
  fun_induction symbols literals distances c output with
  | case1 => simp [Stage.bitsLeft]
  | case2 c output symbol rest hs byte hbyte ih =>
      have hless := PrefixCode.remaining_lt_of_decode hs
      simp only [bitYield, ByteArray.size_push] at ih ⊢
      omega
  | case3 c output symbol rest hs hend =>
      have hless := PrefixCode.remaining_lt_of_decode hs
      simp only [bitYield, Stage.bitsLeft]
      omega
  | case4 => simp [Stage.bitsLeft]
  | case5 c output symbol rest hs i hi length distance rest' hm ih =>
      have hfirst := PrefixCode.remaining_lt_of_decode hs
      have hsecond := remaining_lt_of_matchAt hm
      have hlength := length_le_of_matchAt hm
      simp only [bitYield, size_copyMatch] at ih ⊢
      omega

theorem size_stored_le (c : BitCursor) (output : ByteArray) :
    (stored c output).output.size + bitYield * (stored c output).bitsLeft ≤
      output.size + bitYield * c.remaining := by
  have halign := c.remaining_align_le
  unfold stored
  dsimp only
  split
  · simp [Stage.bitsLeft]
  · rename_i length c₁ hlength
    split
    · simp [Stage.bitsLeft]
    · rename_i complement c₂ hcomplement
      have hfirst := BitCursor.remaining_le_of_bits? hlength
      have hsecond := BitCursor.remaining_le_of_bits? hcomplement
      split
      · simp [Stage.bitsLeft]
      · simp only [BitCursor.remaining] at halign hfirst hsecond
        split <;>
          simp only [Stage.bitsLeft, BitCursor.remaining, BitCursor.skipBytes, bitYield,
            ByteArray.size_append, ByteArray.size_extract] <;>
          omega

theorem size_block_le (kind : ℕ) (c : BitCursor) (output : ByteArray) :
    (block kind c output).output.size + bitYield * (block kind c output).bitsLeft ≤
      output.size + bitYield * c.remaining := by
  unfold block
  split
  · exact size_stored_le c output
  split
  · exact size_symbols_le fixedLiterals fixedDistances c output
  split
  · split
    · simp [Stage.bitsLeft]
    · rename_i literals distances rest hcodes
      have hless := remaining_le_of_readCodes hcodes
      have hsize := size_symbols_le literals distances rest output
      exact hsize.trans (Nat.add_le_add_left (Nat.mul_le_mul_left _ hless) _)
  · simp [Stage.bitsLeft]

theorem size_blocks_le (c : BitCursor) (output : ByteArray) :
    (blocks c output).output.size ≤ output.size + bitYield * c.remaining := by
  have hbits {c c₁ c₂ : BitCursor} {final kind : ℕ} (hfinal : c.bits? 1 = some (final, c₁))
      (hkind : c₁.bits? 2 = some (kind, c₂)) :
      bitYield * c₂.remaining ≤ bitYield * c.remaining :=
    Nat.mul_le_mul_left _ ((BitCursor.remaining_le_of_bits? hkind).trans
      (BitCursor.remaining_le_of_bits? hfinal))
  fun_induction blocks c output with
  | case1 => simp
  | case2 => simp
  | case3 c output final c₁ hfinal kind c₂ hkind stage fault hstage =>
      have hsize := (Nat.le_add_right _ _).trans (size_block_le kind c₂ output)
      exact hsize.trans (Nat.add_le_add_left (hbits hfinal hkind) _)
  | case4 c output c₁ kind c₂ hkind stage rest hstage hfinal =>
      have hsize := (Nat.le_add_right _ _).trans (size_block_le kind c₂ output)
      exact hsize.trans (Nat.add_le_add_left (hbits hfinal hkind) _)
  | case5 c output final c₁ hfinal kind c₂ hkind stage rest hstage hmore ih =>
      have hsize := size_block_le kind c₂ output
      rw [Stage.bitsLeft, hstage] at hsize
      exact ih.trans (hsize.trans (Nat.add_le_add_left (hbits hfinal hkind) _))

/-- A byte of compressed data is worth at most 1032 bytes. -/
theorem size_inflate_le (data : ByteArray) :
    (inflate data).output.size ≤ 1032 * data.size := by
  have hblocks := size_blocks_le ⟨data, 0⟩ ByteArray.empty
  simp only [bitYield, BitCursor.remaining, ByteArray.size_empty] at hblocks
  rw [inflate]
  omega

end VendorScreen.Deflate
