import VendorScreen.Dex.Leb128
import VendorScreen.Proofs.ByteRuns

namespace VendorScreen.Dex.Leb128

/-!
# Reading back variable-length numbers

Each group but the last has its top bit set and holds the number modulo 128; what follows it writes
the quotient. Reading takes any bytes of that form, up to five of them, and keeps 32 bits of the
number that they spell.
-/

/-- The bytes are the groups of a number, whether these are as few as they could be or not. -/
inductive Spells : List UInt8 → ℕ → Prop
  | last {byte : UInt8} (hlast : byte < 0x80) : Spells [byte] byte.toNat
  | group {byte : UInt8} {rest : List UInt8} {high : ℕ} (hmore : 0x80 ≤ byte)
      (hrest : Spells rest high) : Spells (byte :: rest) (byte.toNat - 0x80 + 128 * high)

section grammar

variable {b : ByteArray} {start n next limit : ℕ} {bytes : List UInt8}

theorem not_lt_of_le {byte : UInt8} (h : 0x80 ≤ byte) : ¬ byte < 0x80 := by
  rw [UInt8.lt_iff_toNat_lt, Nat.not_lt]
  exact UInt8.le_iff_toNat_le.mp h

theorem groups?_of_spells (h : Spells bytes n) (hlimit : bytes.length ≤ limit)
    (hbytes : Bytes.Holds b start bytes) :
    groups? b start limit = some (n, start + bytes.length) := by
  induction h generalizing start limit with
  | last hlast =>
      obtain ⟨limit, rfl⟩ : ∃ k, limit = k + 1 := ⟨limit - 1, by simp at hlimit; omega⟩
      simp [groups?, hbytes.1, hlast]
  | @group byte rest high hmore hrest ih =>
      obtain ⟨limit, rfl⟩ : ∃ k, limit = k + 1 := ⟨limit - 1, by simp at hlimit; omega⟩
      have hlater := ih (Nat.le_of_succ_le_succ hlimit) hbytes.2
      simp [groups?, hbytes.1, not_lt_of_le hmore, hlater, Nat.add_assoc, Nat.add_comm 1]

theorem exists_spells_of_groups? (h : groups? b start limit = some (n, next)) :
    ∃ bytes, Spells bytes n ∧ bytes.length ≤ limit ∧ Bytes.Holds b start bytes ∧
      next = start + bytes.length := by
  induction limit generalizing start n next with
  | zero => simp [groups?] at h
  | succ limit ih =>
      cases hbyte : b[start]? with
      | none => simp [groups?, hbyte] at h
      | some byte =>
          by_cases hlast : byte < 0x80
          · simp only [groups?, hbyte, hlast, Option.bind_eq_bind, Option.bind_some, if_true,
              Option.pure_def, Option.some.injEq, Prod.mk.injEq] at h
            obtain ⟨rfl, rfl⟩ := h
            exact ⟨[byte], .last hlast, by simp, ⟨hbyte, trivial⟩, rfl⟩
          · simp only [groups?, hbyte, hlast, Option.bind_eq_bind, Option.bind_some, if_false,
              Option.bind_eq_some_iff, Option.pure_def, Option.some.injEq, Prod.mk.injEq] at h
            obtain ⟨⟨high, next'⟩, hrest, rfl, rfl⟩ := h
            obtain ⟨rest, hspells, hlength, hholds, rfl⟩ := ih hrest
            have hmore : 0x80 ≤ byte := by
              rw [UInt8.lt_iff_toNat_lt, Nat.not_lt] at hlast
              exact UInt8.le_iff_toNat_le.mpr hlast
            refine ⟨byte :: rest, .group hmore hspells, ?_, ⟨hbyte, hholds⟩, ?_⟩
            · exact Nat.succ_le_succ hlength
            · rw [List.length_cons]
              omega

theorem read?_eq_some_iff : read? b start = some (n, next) ↔
    ∃ bytes value, Spells bytes value ∧ bytes.length ≤ longest ∧ Bytes.Holds b start bytes ∧
      n = value % 2 ^ 32 ∧ next = start + bytes.length := by
  rw [read?, Option.map_eq_some_iff]
  constructor
  · rintro ⟨⟨value, next'⟩, hgroups, heq⟩
    obtain ⟨rfl, rfl⟩ := Prod.mk.inj heq
    obtain ⟨bytes, hspells, hlength, hholds, hnext⟩ := exists_spells_of_groups? hgroups
    exact ⟨bytes, value, hspells, hlength, hholds, rfl, hnext⟩
  · rintro ⟨bytes, value, hspells, hlength, hholds, rfl, rfl⟩
    exact ⟨_, groups?_of_spells hspells hlength hholds, rfl⟩

/-- The groups that are written for a number are those of this number. -/
theorem spells_encodeWithin (hlimit : 0 < limit) (hn : n < 128 ^ limit) :
    Spells (encodeWithin n limit) n ∧ (encodeWithin n limit).length ≤ limit := by
  induction limit generalizing n with
  | zero => exact absurd hlimit (Nat.lt_irrefl 0)
  | succ limit ih =>
      rw [encodeWithin]
      by_cases hlast : n < 128
      · rw [if_pos hlast]
        have hbyte : n.toUInt8.toNat = n := Bytes.toNat_toUInt8 (by omega)
        have hlow : n.toUInt8 < 0x80 := by
          rw [UInt8.lt_iff_toNat_lt, hbyte]
          exact hlast
        exact ⟨by simpa only [hbyte] using Spells.last hlow, by simp⟩
      · rw [if_neg hlast]
        have hbyte : (n % 128 + 128).toUInt8.toNat = n % 128 + 128 :=
          Bytes.toNat_toUInt8 (by omega)
        have hmore : 0x80 ≤ (n % 128 + 128).toUInt8 := by
          rw [UInt8.le_iff_toNat_le, hbyte]
          exact Nat.le_add_left 128 _
        have hrest : n / 128 < 128 ^ limit := by
          rw [Nat.div_lt_iff_lt_mul (by decide), ← Nat.pow_succ]
          exact hn
        have hpositive : 0 < limit := by
          by_contra hzero
          have hlimit : limit = 0 := by omega
          rw [hlimit, Nat.pow_zero] at hrest
          omega
        obtain ⟨hspells, hlength⟩ := ih hpositive hrest
        refine ⟨?_, Nat.succ_le_succ hlength⟩
        have hgroup := Spells.group hmore hspells
        rwa [hbyte, Nat.add_sub_cancel, Nat.mod_add_div] at hgroup

theorem spells_encode (hn : n < 2 ^ 32) :
    Spells (encode n) n ∧ (encode n).length ≤ longest :=
  spells_encodeWithin (by decide) (Nat.lt_trans hn (by decide))

/-- A 32-bit number is read back, whatever follows it. -/
theorem read?_of_holds (hn : n < 2 ^ 32) (h : Bytes.Holds b start (encode n)) :
    read? b start = some (n, start + (encode n).length) := by
  obtain ⟨hspells, hlength⟩ := spells_encode hn
  exact read?_eq_some_iff.mpr
    ⟨encode n, n, hspells, hlength, h, (Nat.mod_eq_of_lt hn).symm, rfl⟩

end grammar

end VendorScreen.Dex.Leb128
