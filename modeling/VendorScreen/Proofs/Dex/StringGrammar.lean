import VendorScreen.Proofs.Dex.ModifiedUtf8

namespace VendorScreen.Dex.ModifiedUtf8

/-!
# The strings that are accepted

A unit has three forms, and the lead byte tells which of them follows. A unit may be written in a
longer form than it needs, but nothing else is taken: the units end at the first zero byte where one
could begin, their number is the one in front of them, and they are the UTF-16 units of a text.
-/

/-- The byte continues a unit. -/
def IsContinuation (byte : UInt8) : Prop := 0x80 ≤ byte ∧ byte ≤ 0xbf

inductive SpellsUnit : List UInt8 → ℕ → Prop
  | one {lead : UInt8} (hlower : 0x01 ≤ lead) (hupper : lead ≤ 0x7f) :
      SpellsUnit [lead] lead.toNat
  | two {lead low : UInt8} (hlower : 0xc0 ≤ lead) (hupper : lead ≤ 0xdf)
      (hlow : IsContinuation low) :
      SpellsUnit [lead, low] ((lead.toNat - 0xc0) * 64 + (low.toNat - 0x80))
  | three {lead middle low : UInt8} (hlower : 0xe0 ≤ lead) (hupper : lead ≤ 0xef)
      (hmiddle : IsContinuation middle) (hlow : IsContinuation low) :
      SpellsUnit [lead, middle, low]
        (((lead.toNat - 0xe0) * 64 + (middle.toNat - 0x80)) * 64 + (low.toNat - 0x80))

inductive SpellsUnits : List UInt8 → List ℕ → Prop
  | nil : SpellsUnits [] []
  | cons {first rest : List UInt8} {unit : ℕ} {units : List ℕ} (hfirst : SpellsUnit first unit)
      (hrest : SpellsUnits rest units) : SpellsUnits (first ++ rest) (unit :: units)

/-- The bytes are the number of units in a text, these units, and a zero byte. Of the number only 32
bits count. -/
inductive SpellsString (text : String) : List UInt8 → Prop
  | intro {number body : List UInt8} {value : ℕ} (hnumber : Leb128.Spells number value)
      (hshort : number.length ≤ Leb128.longest)
      (hbody : SpellsUnits body (Text.Utf16.encode text.toList))
      (hcount : (Text.Utf16.encode text.toList).length = value % 2 ^ 32) :
      SpellsString text (number ++ (body ++ [0]))

section units

variable {b : ByteArray} {start unit next : ℕ} {lead : UInt8} {bytes : List UInt8} {units : List ℕ}

theorem SpellsUnit.lt (h : SpellsUnit bytes unit) : unit < 0x10000 := by
  cases h with
  | one hlower hupper =>
      simp only [UInt8.le_iff_toNat_le, UInt8.reduceToNat] at hupper
      omega
  | two hlower hupper hlow =>
      simp only [IsContinuation, UInt8.le_iff_toNat_le, UInt8.reduceToNat] at hupper hlow
      omega
  | three hlower hupper hmiddle hlow =>
      simp only [IsContinuation, UInt8.le_iff_toNat_le, UInt8.reduceToNat] at hupper hmiddle hlow
      omega

theorem SpellsUnits.lt_of_mem (h : SpellsUnits bytes units) (hunit : unit ∈ units) :
    unit < 0x10000 := by
  induction h with
  | nil => simp at hunit
  | cons hfirst hrest ih =>
      rcases List.mem_cons.mp hunit with rfl | hunit
      · exact hfirst.lt
      · exact ih hunit

theorem SpellsUnits.length_le (h : SpellsUnits bytes units) : units.length ≤ bytes.length := by
  induction h with
  | nil => exact Nat.le_refl 0
  | cons hfirst hrest ih =>
      rw [List.length_cons, List.length_append]
      cases hfirst <;> simp only [List.length_cons, List.length_nil] <;> omega

theorem IsContinuation.continuation?_eq {byte : UInt8} (h : IsContinuation byte)
    (hbyte : b[start]? = some byte) : continuation? b start = some (byte.toNat - 0x80) := by
  simp [continuation?, hbyte, h.1, h.2]

theorem exists_of_continuation? {low : ℕ} (h : continuation? b start = some low) :
    ∃ byte, b[start]? = some byte ∧ IsContinuation byte ∧ low = byte.toNat - 0x80 := by
  unfold continuation? at h
  cases hbyte : b[start]? with
  | none => simp [hbyte] at h
  | some byte =>
      simp only [hbyte, Option.bind_eq_bind, Option.bind_some] at h
      split_ifs at h with hbounds
      rw [Bool.and_eq_true, decide_eq_true_eq, decide_eq_true_eq] at hbounds
      exact ⟨byte, rfl, hbounds, (Option.some.inj h).symm⟩

/-- The bytes of a unit begin with a lead byte that is not zero, and are read from it. -/
theorem SpellsUnit.exists_lead (h : SpellsUnit bytes unit) (hbytes : Bytes.Holds b start bytes) :
    ∃ lead, b[start]? = some lead ∧ lead ≠ 0 ∧
      unit? b lead (start + 1) = some (unit, start + bytes.length) := by
  cases h with
  | @one lead hlower hupper =>
      simp only [UInt8.le_iff_toNat_le, UInt8.reduceToNat] at hlower hupper
      refine ⟨lead, hbytes.1, ne_zero_of_toNat_pos hlower, ?_⟩
      exact unit?_of_one (by omega)
  | @two lead low hlower hupper hlow =>
      simp only [UInt8.le_iff_toNat_le, UInt8.reduceToNat] at hlower hupper
      refine ⟨lead, hbytes.1, ne_zero_of_toNat_pos (by omega), ?_⟩
      exact unit?_of_two (by omega) (by omega) (hlow.continuation?_eq hbytes.2.1)
  | @three lead middle low hlower hupper hmiddle hlow =>
      simp only [UInt8.le_iff_toNat_le, UInt8.reduceToNat] at hlower hupper
      refine ⟨lead, hbytes.1, ne_zero_of_toNat_pos (by omega), ?_⟩
      exact unit?_of_three (by omega) (by omega) (hmiddle.continuation?_eq hbytes.2.1)
        (hlow.continuation?_eq hbytes.2.2.1)

theorem exists_spellsUnit (hlead : b[start]? = some lead) (hne : lead ≠ 0)
    (h : unit? b lead (start + 1) = some (unit, next)) :
    ∃ bytes, SpellsUnit bytes unit ∧ Bytes.Holds b start bytes ∧ next = start + bytes.length := by
  unfold unit? at h
  split_ifs at h with hone htwo hthree
  · obtain ⟨rfl, rfl⟩ := Prod.mk.inj (Option.some.inj h)
    have hpositive : lead.toNat ≠ 0 := fun hzero => hne (UInt8.toNat_inj.mp hzero)
    refine ⟨[lead], .one ?_ ?_, ⟨hlead, trivial⟩, rfl⟩
    · exact UInt8.le_iff_toNat_le.mpr (Nat.pos_of_ne_zero hpositive)
    · exact UInt8.le_iff_toNat_le.mpr (Nat.le_of_lt_succ (UInt8.lt_iff_toNat_lt.mp hone))
  · simp only [Option.bind_eq_bind, Option.bind_eq_some_iff, Option.pure_def, Option.some.injEq,
      Prod.mk.injEq] at h
    obtain ⟨low, hlow, rfl, rfl⟩ := h
    obtain ⟨byte, hbyte, hcontinues, hvalue⟩ := exists_of_continuation? hlow
    rw [hvalue]
    rw [Bool.and_eq_true, decide_eq_true_eq, decide_eq_true_eq] at htwo
    exact ⟨[lead, byte], .two htwo.1 htwo.2 hcontinues, ⟨hlead, hbyte, trivial⟩, rfl⟩
  · simp only [Option.bind_eq_bind, Option.bind_eq_some_iff, Option.pure_def, Option.some.injEq,
      Prod.mk.injEq] at h
    obtain ⟨middle, hmiddle, low, hlow, rfl, rfl⟩ := h
    obtain ⟨byte, hbyte, hcontinues, hvalue⟩ := exists_of_continuation? hmiddle
    obtain ⟨byte', hbyte', hcontinues', hvalue'⟩ := exists_of_continuation? hlow
    rw [hvalue, hvalue']
    rw [Bool.and_eq_true, decide_eq_true_eq, decide_eq_true_eq] at hthree
    exact ⟨[lead, byte, byte'], .three hthree.1 hthree.2 hcontinues hcontinues',
      ⟨hlead, hbyte, hbyte', trivial⟩, rfl⟩

theorem SpellsUnits.units?_eq {done : Array ℕ} (h : SpellsUnits bytes units)
    (hbytes : Bytes.Holds b start (bytes ++ [0])) :
    units? b start done = some (done ++ units.toArray) := by
  induction h generalizing start done with
  | nil =>
      rw [units?_of_zero hbytes.1]
      simp
  | cons hfirst hrest ih =>
      rw [List.append_assoc, Bytes.holds_append] at hbytes
      obtain ⟨lead, hlead, hne, hread⟩ := hfirst.exists_lead hbytes.1
      rw [units?_eq_of_unit? hlead hne hread, ih hbytes.2]
      simp

/-- What is read up to a zero byte is the units that the bytes in front of it spell. -/
theorem exists_spellsUnits {done read : Array ℕ} (h : units? b start done = some read) :
    ∃ bytes units, SpellsUnits bytes units ∧ Bytes.Holds b start (bytes ++ [0]) ∧
      read = done ++ units.toArray := by
  fun_induction units? b start done with
  | case1 start done hstart lead hzero =>
      have hlead : b[start]? = some 0 := by rw [getElem?_pos b start hstart, ← hzero]
      exact ⟨[], [], .nil, ⟨hlead, trivial⟩, by simpa using h.symm⟩
  | case3 start done hstart lead hne unit next hread ih =>
      obtain ⟨rest, units, hrest, hbytes, rfl⟩ := ih h
      have hlead : b[start]? = some lead := getElem?_pos b start hstart
      obtain ⟨first, hfirst, hholds, rfl⟩ := exists_spellsUnit hlead hne hread
      refine ⟨first ++ rest, unit :: units, .cons hfirst hrest, ?_, by simp⟩
      rw [List.append_assoc, Bytes.holds_append]
      exact ⟨hholds, hbytes⟩
  | case2 | case4 => cases h

end units

section strings

variable {b : ByteArray} {offset : ℕ} {text : String} {bytes : List UInt8}

theorem read_of_spellsString (h : SpellsString text bytes) (hbytes : Bytes.Holds b offset bytes) :
    read b offset = .ok text := by
  cases h with
  | @intro number body value hnumber hshort hbody hcount =>
      rw [Bytes.holds_append] at hbytes
      have hlength : Leb128.read? b offset = some (value % 2 ^ 32, offset + number.length) :=
        Leb128.read?_eq_some_iff.mpr ⟨number, value, hnumber, hshort, hbytes.1, rfl, rfl⟩
      have hunits : units? b (offset + number.length) #[] = some (#[] ++ _) :=
        hbody.units?_eq hbytes.2
      -- Each unit takes a byte or more, so the early refusal of the length does not apply.
      have hroom := hbytes.2.le_size (by simp)
      have hfew := hbody.length_le
      rw [List.length_append] at hroom
      have hfits : ¬ b.size - (offset + number.length) < value % 2 ^ 32 := by omega
      simp only [read, hlength, hfits, if_false, hunits]
      simp [hcount, Text.Utf16.decode?_encode]

theorem exists_spellsString (h : read b offset = .ok text) :
    ∃ bytes, SpellsString text bytes ∧ Bytes.Holds b offset bytes := by
  unfold read at h
  split at h
  · cases h
  · rename_i length start hlength
    obtain ⟨number, value, hnumber, hshort, hholds, rfl, rfl⟩ := Leb128.read?_eq_some_iff.mp hlength
    split_ifs at h with hroom
    split at h
    · cases h
    · rename_i units hunits
      obtain ⟨body, units, hbody, hbytes, rfl⟩ := exists_spellsUnits hunits
      split_ifs at h with hcount
      split at h
      · cases h
      · rename_i chars hchars
        rw [← Except.ok.inj h]
        simp only [Array.empty_append, List.size_toArray, not_not] at hcount hchars
        obtain rfl := (Text.Utf16.decode?_eq_some_iff fun _ => hbody.lt_of_mem).mp hchars
        refine ⟨number ++ (body ++ [0]), ?_, Bytes.holds_append.mpr ⟨hholds, hbytes⟩⟩
        apply SpellsString.intro hnumber hshort
        · rwa [String.toList_ofList]
        · rwa [String.toList_ofList]

theorem read_eq_ok_or_error (b : ByteArray) (offset : ℕ) :
    (∃ text, read b offset = .ok text) ∨ read b offset = .error (.badString offset) := by
  unfold read
  cases Leb128.read? b offset with
  | none => exact .inr rfl
  | some number =>
      dsimp only
      split_ifs
      · exact .inr rfl
      · cases units? b number.2 #[] with
        | none => exact .inr rfl
        | some units =>
            dsimp only
            split_ifs
            · exact .inr rfl
            · cases Text.Utf16.decode? units.toList with
              | none => exact .inr rfl
              | some chars => exact .inl ⟨String.ofList chars, rfl⟩

/-- The strings that can be read are those of the format, and all else is a bad string. -/
theorem read_accepts_grammar (b : ByteArray) (offset : ℕ) :
    (∀ text, read b offset = .ok text ↔
      ∃ bytes, SpellsString text bytes ∧ Bytes.Holds b offset bytes) ∧
    (read b offset = .error (.badString offset) ↔
      ¬ ∃ text bytes, SpellsString text bytes ∧ Bytes.Holds b offset bytes) := by
  have hread (text : String) : read b offset = .ok text ↔
      ∃ bytes, SpellsString text bytes ∧ Bytes.Holds b offset bytes := by
    constructor
    · exact exists_spellsString
    · rintro ⟨bytes, hspells, hbytes⟩
      exact read_of_spellsString hspells hbytes
  refine ⟨hread, ?_⟩
  constructor
  · rintro hbad ⟨text, hspelled⟩
    rw [(hread text).mpr hspelled] at hbad
    cases hbad
  · intro hnone
    rcases read_eq_ok_or_error b offset with ⟨text, htext⟩ | hbad
    · exact absurd ⟨text, (hread text).mp htext⟩ hnone
    · exact hbad

/-- Longer forms than needed are taken: `A` in two bytes, with its count in two. -/
example : read ⟨#[0x81, 0x00, 0xc1, 0x81, 0x00]⟩ 0 = .ok "A" := by decide +kernel

end strings

end VendorScreen.Dex.ModifiedUtf8
