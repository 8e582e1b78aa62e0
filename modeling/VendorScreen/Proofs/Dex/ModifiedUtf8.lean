import VendorScreen.Dex.ModifiedUtf8
import VendorScreen.Proofs.Dex.Leb128
import VendorScreen.Proofs.Text.Utf16

namespace VendorScreen.Dex.ModifiedUtf8

/-!
# Reading back strings

The lead byte of a unit says how many bytes it has, and no unit begins with a zero byte. The units
of a string are therefore found one after the other up to the zero byte that ends it.
-/

section units

variable {b : ByteArray} {start unit : ℕ} {lead byte : UInt8}

theorem continuation?_of_getElem? {low : ℕ} (hlow : low < 64) (hbyte : byte.toNat = 0x80 + low)
    (h : b[start]? = some byte) : continuation? b start = some low := by
  have hlower : 0x80 ≤ byte.toNat := by omega
  have hupper : byte.toNat ≤ 0xbf := by omega
  simp [continuation?, h, UInt8.le_iff_toNat_le, hlower, hupper]
  omega

theorem unit?_of_one (hlead : lead.toNat < 0x80) :
    unit? b lead start = some (lead.toNat, start) := by
  simp [unit?, UInt8.lt_iff_toNat_lt, hlead]

theorem unit?_of_two {high low : ℕ} (hhigh : high < 32) (hlead : lead.toNat = 0xc0 + high)
    (h : continuation? b start = some low) :
    unit? b lead start = some (high * 64 + low, start + 1) := by
  have hone : ¬ lead.toNat < 0x80 := by omega
  have hlower : 0xc0 ≤ lead.toNat := by omega
  have hupper : lead.toNat ≤ 0xdf := by omega
  have hbits : lead.toNat - 0xc0 = high := by omega
  simp [unit?, UInt8.lt_iff_toNat_lt, UInt8.le_iff_toNat_le, hone, hlower, hupper, h, hbits]

theorem unit?_of_three {high middle low : ℕ} (hhigh : high < 16)
    (hlead : lead.toNat = 0xe0 + high) (h : continuation? b start = some middle)
    (h' : continuation? b (start + 1) = some low) :
    unit? b lead start = some ((high * 64 + middle) * 64 + low, start + 2) := by
  have hone : ¬ lead.toNat < 0x80 := by omega
  have htwo : ¬ lead.toNat ≤ 0xdf := by omega
  have hlower : 0xe0 ≤ lead.toNat := by omega
  have hupper : lead.toNat ≤ 0xef := by omega
  have hbits : lead.toNat - 0xe0 = high := by omega
  simp [unit?, UInt8.lt_iff_toNat_lt, UInt8.le_iff_toNat_le, hone, htwo, hlower, hupper, h, h',
    hbits]

theorem ne_zero_of_toNat_pos (h : 0 < lead.toNat) : lead ≠ 0 := by
  rintro rfl
  exact Nat.lt_irrefl 0 h

/-- The lead byte of a unit is not zero, and reading on from it gives the unit. -/
theorem unit?_of_holds (hunit : unit < 0x10000) (h : Bytes.Holds b start (encodeUnit unit)) :
    ∃ lead, b[start]? = some lead ∧ lead ≠ 0 ∧
      unit? b lead (start + 1) = some (unit, start + (encodeUnit unit).length) := by
  unfold encodeUnit at h ⊢
  split_ifs at h ⊢ with hzero hone htwo
  · refine ⟨0xc0, h.1, by decide, ?_⟩
    have hlow : continuation? b (start + 1) = some 0 :=
      continuation?_of_getElem? (by decide) rfl h.2.1
    have hlead : (0xc0 : UInt8).toNat = 0xc0 + 0 := rfl
    rw [unit?_of_two (by decide) hlead hlow, hzero]
    rfl
  · have hlead : unit.toUInt8.toNat = unit := Bytes.toNat_toUInt8 (by omega)
    refine ⟨_, h.1, ne_zero_of_toNat_pos (by omega), ?_⟩
    rw [unit?_of_one (by omega), hlead]
    rfl
  · have hlead : (0xc0 + unit / 64).toUInt8.toNat = 0xc0 + unit / 64 :=
      Bytes.toNat_toUInt8 (by omega)
    have hlow : continuation? b (start + 1) = some (unit % 64) :=
      continuation?_of_getElem? (by omega) (Bytes.toNat_toUInt8 (by omega)) h.2.1
    refine ⟨_, h.1, ne_zero_of_toNat_pos (by omega), ?_⟩
    rw [unit?_of_two (by omega) hlead hlow, Nat.div_add_mod']
    rfl
  · have hlead : (0xe0 + unit / 4096).toUInt8.toNat = 0xe0 + unit / 4096 :=
      Bytes.toNat_toUInt8 (by omega)
    have hmiddle : continuation? b (start + 1) = some (unit / 64 % 64) :=
      continuation?_of_getElem? (by omega) (Bytes.toNat_toUInt8 (by omega)) h.2.1
    have hlow : continuation? b (start + 1 + 1) = some (unit % 64) :=
      continuation?_of_getElem? (by omega) (Bytes.toNat_toUInt8 (by omega)) h.2.2.1
    refine ⟨_, h.1, ne_zero_of_toNat_pos (by omega), ?_⟩
    have hquotient : unit / 4096 = unit / 64 / 64 := by rw [Nat.div_div_eq_div_mul]
    have hsum : (unit / 4096 * 64 + unit / 64 % 64) * 64 + unit % 64 = unit := by omega
    rw [unit?_of_three (by omega) hlead hmiddle hlow, hsum]
    rfl

theorem units?_eq_of_unit? {next : ℕ} {done : Array ℕ} (hlead : b[start]? = some lead)
    (hne : lead ≠ 0) (hread : unit? b lead (start + 1) = some (unit, next)) :
    units? b start done = units? b next (done.push unit) := by
  have hstart := Bytes.lt_size_of_getElem? hlead
  rw [getElem?_pos b start hstart, Option.some.injEq] at hlead
  subst hlead
  rw [units?, dif_pos hstart, if_neg hne]
  split
  · rename_i hnone
    simp [hread] at hnone
  · rename_i hsome
    rw [hread, Option.some.injEq, Prod.mk.injEq] at hsome
    rw [hsome.1, hsome.2]

theorem units?_of_zero {done : Array ℕ} (h : b[start]? = some 0) :
    units? b start done = some done := by
  have hstart := Bytes.lt_size_of_getElem? h
  rw [getElem?_pos b start hstart, Option.some.injEq] at h
  rw [units?, dif_pos hstart, if_pos h]

theorem units?_of_holds {units : List ℕ} {done : Array ℕ}
    (hunits : ∀ unit ∈ units, unit < 0x10000)
    (h : Bytes.Holds b start (units.flatMap encodeUnit ++ [0])) :
    units? b start done = some (done ++ units.toArray) := by
  induction units generalizing start done with
  | nil =>
      rw [units?_of_zero h.1]
      simp
  | cons unit units ih =>
      rw [List.flatMap_cons, List.append_assoc, Bytes.holds_append] at h
      obtain ⟨lead, hlead, hne, hread⟩ := unit?_of_holds (hunits unit List.mem_cons_self) h.1
      rw [units?_eq_of_unit? hlead hne hread,
        ih (fun u hu => hunits u (List.mem_cons_of_mem unit hu)) h.2]
      simp

end units

theorem length_le_length_flatMap (units : List ℕ) :
    units.length ≤ (units.flatMap encodeUnit).length := by
  induction units with
  | nil => simp
  | cons unit units ih =>
      have hunit : 1 ≤ (encodeUnit unit).length := by
        unfold encodeUnit
        split_ifs <;> simp
      rw [List.flatMap_cons, List.length_append, List.length_cons]
      omega

/-- A string is read back wherever its bytes stand, if it has less than `2 ^ 32` units. -/
theorem read_of_holds {b : ByteArray} {offset : ℕ} {text : String} (hsize : b.size < 2 ^ 32)
    (h : Bytes.Holds b offset (encode text)) : read b offset = .ok text := by
  have hfit := h.le_size (by simp [encode])
  rw [encode, List.append_assoc, Bytes.holds_append] at h
  have hlength := length_le_length_flatMap (Text.Utf16.encode text.toList)
  simp only [encode, List.length_append, List.length_singleton] at hfit
  have hread := Leb128.read?_of_holds (by omega) h.1
  have hunits : units? b _ #[] = some (#[] ++ (Text.Utf16.encode text.toList).toArray) :=
    units?_of_holds (fun _ => Text.Utf16.lt_of_mem_encode) h.2
  have hroom : ¬ b.size - (offset + (Leb128.encode (Text.Utf16.encode text.toList).length).length)
      < (Text.Utf16.encode text.toList).length := by omega
  simp only [read, hread, hunits, hroom, if_false]
  simp [Text.Utf16.decode?_encode]

end VendorScreen.Dex.ModifiedUtf8
