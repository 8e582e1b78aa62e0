import VendorScreen.Proofs.Dex.ModifiedUtf8

namespace VendorScreen.Dex.Leb128

/-!
# Numbers beyond 32 bits

Five groups have room for 35 bits, and a number has 32. More groups are refused, but of a fifth one
only the four lowest bits fall into the word: if there are others, a number is read as a smaller
one. All other numbers are read exactly. A reader that shifts each group to its place in a word as
it comes by loses the same bits.
-/

/-- The top bit is set in all bytes but the last. -/
def IsNumeral (bytes : List UInt8) : Prop :=
  ∃ front last, bytes = front ++ [last] ∧ (∀ byte ∈ front, 0x80 ≤ byte) ∧ last < 0x80

/-- The seven-bit digits in the bytes, the `k`-th of them times `128 ^ k`, added up. -/
def valueOf (bytes : List UInt8) : ℕ := Nat.ofDigits 128 (bytes.map fun byte => byte.toNat % 128)

/-- A numeral of one to five bytes stands at `start`. -/
structure NumeralAt (b : ByteArray) (start : ℕ) (bytes : List UInt8) : Prop where
  isNumeral : IsNumeral bytes
  short : bytes.length ≤ longest
  holds : Bytes.Holds b start bytes

/-- At `start` the numerals are read as the numbers that they are, and those beyond 32 bits are
refused like anything that is no numeral. -/
def ReadsExactly (b : ByteArray) (start : ℕ) : Prop :=
  ∀ n next, read? b start = some (n, next) ↔
    ∃ bytes, NumeralAt b start bytes ∧ n = valueOf bytes ∧ n < 2 ^ 32 ∧
      next = start + bytes.length

section digits

variable {b : ByteArray} {start n next : ℕ} {byte last : UInt8} {bytes front : List UInt8}

theorem isNumeral_singleton : IsNumeral [last] ↔ last < 0x80 := by
  constructor
  · rintro ⟨front, last', heq, -, hlast⟩
    have hfront : front = [] := by
      have hlength := congrArg List.length heq
      simpa using hlength
    rw [hfront, List.nil_append, List.singleton_inj] at heq
    exact heq ▸ hlast
  · intro hlast
    exact ⟨[], last, rfl, by simp, hlast⟩

theorem IsNumeral.cons (hmore : 0x80 ≤ byte) (h : IsNumeral bytes) :
    IsNumeral (byte :: bytes) := by
  obtain ⟨front, last, rfl, hfront, hlast⟩ := h
  exact ⟨byte :: front, last, rfl, by simpa using ⟨hmore, hfront⟩, hlast⟩

@[simp] theorem valueOf_nil : valueOf [] = 0 := rfl

@[simp] theorem valueOf_cons (byte : UInt8) (bytes : List UInt8) :
    valueOf (byte :: bytes) = byte.toNat % 128 + 128 * valueOf bytes := by
  rw [valueOf, List.map_cons, Nat.ofDigits_cons, valueOf]

theorem valueOf_concat (front : List UInt8) (last : UInt8) :
    valueOf (front ++ [last]) = valueOf front + 128 ^ front.length * (last.toNat % 128) := by
  rw [valueOf, List.map_append, Nat.ofDigits_append, List.length_map, List.map_singleton,
    Nat.ofDigits_singleton, valueOf]

theorem valueOf_lt (bytes : List UInt8) : valueOf bytes < 128 ^ bytes.length := by
  have hdigits : ∀ digit ∈ bytes.map fun byte => byte.toNat % 128, digit < 128 := by
    intro digit hdigit
    obtain ⟨byte, -, rfl⟩ := List.mem_map.mp hdigit
    exact Nat.mod_lt _ (by decide)
  simpa [valueOf] using Nat.ofDigits_lt_base_pow_length (by decide) hdigits

theorem sub_eq_mod_of_le (h : 0x80 ≤ byte) : byte.toNat - 0x80 = byte.toNat % 128 := by
  have hlower : 128 ≤ byte.toNat := UInt8.le_iff_toNat_le.mp h
  have hupper := byte.toNat_lt
  omega

/-- What the groups spell is the value of their digits. -/
theorem spells_iff : Spells bytes n ↔ IsNumeral bytes ∧ n = valueOf bytes := by
  constructor
  · intro h
    induction h with
    | @last byte hlast =>
        have hbyte : byte.toNat < 128 := UInt8.lt_iff_toNat_lt.mp hlast
        refine ⟨isNumeral_singleton.mpr hlast, ?_⟩
        rw [valueOf_cons, valueOf_nil, Nat.mod_eq_of_lt hbyte, Nat.mul_zero, Nat.add_zero]
    | @group byte rest high hmore _ ih =>
        have hdigit := sub_eq_mod_of_le hmore
        exact ⟨ih.1.cons hmore, by rw [valueOf_cons, ← ih.2, hdigit]⟩
  · rintro ⟨⟨front, last, rfl, hfront, hlast⟩, rfl⟩
    induction front with
    | nil =>
        have hbyte : last.toNat < 128 := UInt8.lt_iff_toNat_lt.mp hlast
        have hspells := Spells.last hlast
        rwa [List.nil_append, valueOf_cons, valueOf_nil, Nat.mod_eq_of_lt hbyte]
    | cons byte front ih =>
        have hmore := hfront byte List.mem_cons_self
        have hspells := Spells.group hmore (ih fun x hx => hfront x (List.mem_cons_of_mem byte hx))
        rwa [List.cons_append, valueOf_cons, ← sub_eq_mod_of_le hmore]

theorem NumeralAt.groups?_eq (h : NumeralAt b start bytes) :
    groups? b start longest = some (valueOf bytes, start + bytes.length) :=
  groups?_of_spells (spells_iff.mpr ⟨h.isNumeral, rfl⟩) h.short h.holds

/-- Numerals at one position have one value, as no numeral begins another. -/
theorem NumeralAt.valueOf_eq {other : List UInt8} (h : NumeralAt b start bytes)
    (hother : NumeralAt b start other) : valueOf bytes = valueOf other := by
  have hgroups := h.groups?_eq
  rw [hother.groups?_eq] at hgroups
  exact (Prod.mk.inj (Option.some.inj hgroups)).1.symm

/-- A numeral keeps to 32 bits unless a fifth byte goes beyond its four lowest bits. -/
theorem valueOf_concat_lt_iff (hshort : (front ++ [last]).length ≤ longest)
    (hlast : last < 0x80) :
    valueOf (front ++ [last]) < 2 ^ 32 ↔ (front.length = 4 → last < 0x10) := by
  have hbyte := UInt8.lt_iff_toNat_lt.mp hlast
  rw [UInt8.lt_iff_toNat_lt]
  simp only [UInt8.reduceToNat] at hbyte ⊢
  by_cases hfull : front.length = 4
  · have hlow := valueOf_lt front
    rw [valueOf_concat]
    rw [hfull] at hlow ⊢
    omega
  · have hlength : (front ++ [last]).length ≤ 4 := by
      rw [List.length_append, List.length_singleton] at hshort ⊢
      simp only [longest] at hshort
      omega
    have hfits : valueOf (front ++ [last]) < 2 ^ 32 :=
      calc valueOf (front ++ [last]) < 128 ^ (front ++ [last]).length := valueOf_lt _
        _ ≤ 128 ^ 4 := Nat.pow_le_pow_right (by decide) hlength
        _ < 2 ^ 32 := by decide
    exact ⟨fun _ h => absurd h hfull, fun _ => hfits⟩

end digits

section reading

variable {b : ByteArray} {start n next : ℕ} {bytes : List UInt8}

theorem read?_eq_some_iff_numeralAt : read? b start = some (n, next) ↔
    ∃ bytes, NumeralAt b start bytes ∧ n = valueOf bytes % 2 ^ 32 ∧
      next = start + bytes.length := by
  rw [read?_eq_some_iff]
  constructor
  · rintro ⟨bytes, value, hspells, hshort, hholds, hn, hnext⟩
    obtain ⟨hnumeral, rfl⟩ := spells_iff.mp hspells
    exact ⟨bytes, ⟨hnumeral, hshort, hholds⟩, hn, hnext⟩
  · rintro ⟨bytes, h, hn, hnext⟩
    exact ⟨bytes, _, spells_iff.mpr ⟨h.isNumeral, rfl⟩, h.short, h.holds, hn, hnext⟩

theorem read?_eq_none_iff : read? b start = none ↔ ∀ bytes, ¬ NumeralAt b start bytes := by
  constructor
  · intro hnone bytes h
    rw [read?_eq_some_iff_numeralAt.mpr ⟨bytes, h, rfl, rfl⟩] at hnone
    cases hnone
  · intro h
    rw [Option.eq_none_iff_forall_ne_some]
    rintro ⟨n, next⟩ hsome
    obtain ⟨bytes, hbytes, -⟩ := read?_eq_some_iff_numeralAt.mp hsome
    exact h bytes hbytes

theorem readsExactly_iff_lt :
    ReadsExactly b start ↔ ∀ bytes, NumeralAt b start bytes → valueOf bytes < 2 ^ 32 := by
  constructor
  · intro h bytes hbytes
    have hread := read?_eq_some_iff_numeralAt.mpr ⟨bytes, hbytes, rfl, rfl⟩
    obtain ⟨other, hother, hvalue, hlt, -⟩ := (h _ _).mp hread
    rw [hbytes.valueOf_eq hother, ← hvalue]
    exact hlt
  · intro h n next
    rw [read?_eq_some_iff_numeralAt]
    constructor
    · rintro ⟨bytes, hbytes, rfl, hnext⟩
      rw [Nat.mod_eq_of_lt (h bytes hbytes)]
      exact ⟨bytes, hbytes, rfl, h bytes hbytes, hnext⟩
    · rintro ⟨bytes, hbytes, rfl, hlt, hnext⟩
      exact ⟨bytes, hbytes, (Nat.mod_eq_of_lt hlt).symm, hnext⟩

theorem readsExactly_iff : ReadsExactly b start ↔
    ∀ front last, NumeralAt b start (front ++ [last]) → front.length = 4 → last < 0x10 := by
  rw [readsExactly_iff_lt]
  constructor
  · intro h front last hbytes
    obtain ⟨front', last', heq, -, hlast⟩ := hbytes.isNumeral
    obtain ⟨rfl, rfl⟩ := List.concat_inj.mp (by simpa using heq)
    exact (valueOf_concat_lt_iff hbytes.short hlast).mp (h _ hbytes)
  · intro h bytes hbytes
    obtain ⟨front, last, rfl, -, hlast⟩ := hbytes.isNumeral
    exact (valueOf_concat_lt_iff hbytes.short hlast).mpr (h front last hbytes)

end reading

section words

/-- The word with the digit of one more byte put in at `shift`. What does not fit falls out. -/
def fill (word shift : UInt32) (byte : UInt8) : UInt32 :=
  word ||| (byte &&& 0x7f).toUInt32 <<< shift

/-- Reads a number into a word, byte by byte. -/
def fillFrom? (b : ByteArray) (word shift : UInt32) (start : ℕ) : ℕ → Option (UInt32 × ℕ)
  | 0 => none
  | limit + 1 => do
      let byte ← b[start]?
      if byte &&& 0x80 = 0 then return (fill word shift byte, start + 1)
      else fillFrom? b (fill word shift byte) (shift + 7) (start + 1) limit

variable {b : ByteArray} {word shift : UInt32} {start limit : ℕ} {byte : UInt8}

theorem and_0x80_eq_zero_iff (byte : UInt8) : byte &&& 0x80 = 0 ↔ byte < 0x80 := by
  revert byte
  decide +kernel

theorem toNat_digit (byte : UInt8) : (byte &&& 0x7f).toUInt32.toNat = byte.toNat % 128 := by
  rw [UInt8.toNat_toUInt32, UInt8.toNat_and]
  exact Nat.and_two_pow_sub_one_eq_mod byte.toNat 7

/-- A digit is put above all bits that the word has so far, so to join them is to add. -/
theorem toNat_fill (hword : word.toNat < 2 ^ shift.toNat) (hshift : shift.toNat < 32) :
    (fill word shift byte).toNat =
      (word.toNat + 2 ^ shift.toNat * (byte.toNat % 128)) % 2 ^ 32 := by
  have hfits : word.toNat % 2 ^ 32 = word.toNat := Nat.mod_eq_of_lt word.toNat_lt
  calc (fill word shift byte).toNat
      = word.toNat ||| (byte.toNat % 128) <<< shift.toNat % 2 ^ 32 := by
        rw [fill, UInt32.toNat_or, UInt32.toNat_shiftLeft, toNat_digit, Nat.mod_eq_of_lt hshift]
    _ = (word.toNat ||| (byte.toNat % 128) <<< shift.toNat) % 2 ^ 32 := by
        rw [Nat.or_mod_two_pow, hfits]
    _ = (word.toNat + 2 ^ shift.toNat * (byte.toNat % 128)) % 2 ^ 32 := by
        rw [Nat.or_comm, ← Nat.shiftLeft_add_eq_or_of_lt hword, Nat.shiftLeft_eq, Nat.add_comm,
          Nat.mul_comm]

theorem toNat_fill_lt (hword : word.toNat < 2 ^ shift.toNat) (hshift : shift.toNat < 32) :
    (fill word shift byte).toNat < 2 ^ (shift.toNat + 7) := by
  have hdigit : byte.toNat % 128 + 1 ≤ 128 := Nat.mod_lt _ (by decide)
  calc (fill word shift byte).toNat
      ≤ word.toNat + 2 ^ shift.toNat * (byte.toNat % 128) := by
        rw [toNat_fill hword hshift]
        exact Nat.mod_le _ _
    _ < 2 ^ shift.toNat + 2 ^ shift.toNat * (byte.toNat % 128) := Nat.add_lt_add_right hword _
    _ = 2 ^ shift.toNat * (byte.toNat % 128 + 1) := by ring
    _ ≤ 2 ^ shift.toNat * 128 := Nat.mul_le_mul_left _ hdigit
    _ = 2 ^ (shift.toNat + 7) := by rw [Nat.pow_add]

theorem toNat_shift_add (hshift : shift.toNat < 32) : (shift + 7).toNat = shift.toNat + 7 := by
  rw [UInt32.toNat_add]
  exact Nat.mod_eq_of_lt (by simp only [UInt32.reduceToNat]; omega)

theorem ofNat_fill_add (hword : word.toNat < 2 ^ shift.toNat) (hshift : shift.toNat < 32)
    (hmore : 0x80 ≤ byte) (high : ℕ) :
    UInt32.ofNat ((fill word shift byte).toNat + 2 ^ (shift.toNat + 7) * high) =
      UInt32.ofNat (word.toNat + 2 ^ shift.toNat * (byte.toNat - 0x80 + 128 * high)) := by
  apply UInt32.toNat_inj.mp
  rw [UInt32.toNat_ofNat', UInt32.toNat_ofNat', toNat_fill hword hshift, Nat.mod_add_mod,
    sub_eq_mod_of_le hmore, Nat.pow_add]
  congr 1
  ring

theorem fillFrom?_eq (hword : word.toNat < 2 ^ shift.toNat)
    (hshift : shift.toNat + 7 * limit ≤ 35) :
    fillFrom? b word shift start limit = (groups? b start limit).map
      (Prod.map (fun value => UInt32.ofNat (word.toNat + 2 ^ shift.toNat * value)) id) := by
  -- The bytes that may still come get fewer. The word has the digits so far, which all lie below
  -- the shift, and those that are read from here on are added above them.
  induction limit generalizing word shift start with
  | zero => rfl
  | succ limit ih =>
      cases hbyte : b[start]? with
      | none => simp [fillFrom?, groups?, hbyte]
      | some byte =>
          have hplace : shift.toNat < 32 := by omega
          by_cases hlast : byte < 0x80
          · have hdigit : byte.toNat % 128 = byte.toNat :=
              Nat.mod_eq_of_lt (UInt8.lt_iff_toNat_lt.mp hlast)
            have hfilled : fill word shift byte =
                UInt32.ofNat (word.toNat + 2 ^ shift.toNat * byte.toNat) := by
              apply UInt32.toNat_inj.mp
              rw [toNat_fill hword hplace, hdigit, UInt32.toNat_ofNat']
            simp only [fillFrom?, groups?, hbyte, and_0x80_eq_zero_iff, hlast, if_true, hfilled,
              Option.bind_eq_bind, Option.bind_some, Option.pure_def, Option.map_some,
              Prod.map_apply, id_eq]
          · have hnext := toNat_shift_add hplace
            have hbelow : (fill word shift byte).toNat < 2 ^ (shift + 7).toNat := by
              rw [hnext]
              exact toNat_fill_lt hword hplace
            have hlimit : (shift + 7).toNat + 7 * limit ≤ 35 := by omega
            simp only [fillFrom?, groups?, hbyte, and_0x80_eq_zero_iff, hlast, if_false,
              Option.bind_eq_bind, Option.bind_some, Option.pure_def, ih hbelow hlimit, hnext]
            cases groups? b (start + 1) limit with
            | none => rfl
            | some number =>
                simp only [Option.map_some, Option.bind_some, Prod.map, id_eq,
                  ofNat_fill_add hword hplace (UInt8.not_lt.mp hlast)]

theorem read?_eq_fillFrom? (b : ByteArray) (start : ℕ) :
    read? b start = (fillFrom? b 0 0 start longest).map (Prod.map UInt32.toNat id) := by
  rw [fillFrom?_eq (by decide) (by decide), Option.map_map, Prod.map_comp_map, read?]
  congr 1
  apply funext
  rintro ⟨value, next⟩
  simp

end words

/-- A number is read where a numeral of up to five bytes stands and nowhere else. What is read is
the value of its digits without the bits beyond the word, as when a word is filled digit by digit;
numerals are read exactly if and only if none there has five bytes and a last one of `0x10` or more.
A number of 32 bits is read back from its groups, whatever stands around them. -/
theorem read?_keeps_word (b : ByteArray) (start : ℕ) :
    (∀ n next, read? b start = some (n, next) ↔
      ∃ bytes, NumeralAt b start bytes ∧ n = valueOf bytes % 2 ^ 32 ∧
        next = start + bytes.length) ∧
    (read? b start = none ↔ ∀ bytes, ¬ NumeralAt b start bytes) ∧
    read? b start = (fillFrom? b 0 0 start longest).map (Prod.map UInt32.toNat id) ∧
    (ReadsExactly b start ↔
      ∀ front last, NumeralAt b start (front ++ [last]) → front.length = 4 → last < 0x10) ∧
    ∀ (n : UInt32) (before after : List UInt8),
      read? (before ++ (encode n.toNat ++ after)).toByteArray before.length =
        some (n.toNat, before.length + (encode n.toNat).length) := by
  refine ⟨fun n next => read?_eq_some_iff_numeralAt, read?_eq_none_iff,
    read?_eq_fillFrom? b start, readsExactly_iff, ?_⟩
  intro n before after
  exact read?_of_holds n.toNat_lt (Bytes.holds_toByteArray before (encode n.toNat) after)

/-- A length of `2 ^ 32 + 3` units in five groups. -/
def longLength : List UInt8 := [0x83, 0x80, 0x80, 0x80, 0x10]

def longText : ByteArray := (longLength ++ [0x4c, 0x61, 0x3b, 0x00]).toByteArray

theorem numeralAt_longText : NumeralAt longText 0 longLength where
  isNumeral := ⟨[0x83, 0x80, 0x80, 0x80], 0x10, rfl, by simp, by decide⟩
  short := by decide
  holds := Bytes.holds_toByteArray [] longLength [0x4c, 0x61, 0x3b, 0x00]

/-- The number loses its highest bit, and a text of three units passes for one of that length. -/
theorem bit_lost_in_fifth_group :
    NumeralAt longText 0 longLength ∧ valueOf longLength = 2 ^ 32 + 3 ∧
    read? longText 0 = some (3, 5) ∧ ¬ ReadsExactly longText 0 ∧
    ModifiedUtf8.read longText 0 = .ok "La;" := by
  have hvalue : valueOf longLength = 2 ^ 32 + 3 := by simp [longLength]
  refine ⟨numeralAt_longText, hvalue, by decide +kernel, ?_, by decide +kernel⟩
  intro hexact
  have hlt := readsExactly_iff_lt.mp hexact longLength numeralAt_longText
  omega

end VendorScreen.Dex.Leb128
