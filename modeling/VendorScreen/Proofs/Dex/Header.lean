import VendorScreen.Proofs.ByteRuns
import VendorScreen.Proofs.Dex.Names

namespace VendorScreen.Dex

/-!
# What the header says

Bytes that are long enough for a header have all its numbers, so opening a container comes down to
tests on these numbers. The tables of a container that opens lie inside it.
-/

/-- The numbers of a header that are looked at. -/
structure Header where
  endianTag : ℕ
  size : ℕ
  fileSize : ℕ
  stringIds : Table
  typeIds : Table
  classDefs : Table

/-- The size and the offset of the table stand at the position. -/
def Table.StandsAt (table : Table) (b : ByteArray) (start : ℕ) : Prop :=
  Bytes.u32? b start = some table.size ∧ Bytes.u32? b (start + 4) = some table.offset

structure Header.IsOf (header : Header) (b : ByteArray) : Prop where
  endianTag : Bytes.u32? b 0x28 = some header.endianTag
  size : Bytes.u32? b 0x24 = some header.size
  fileSize : Bytes.u32? b 0x20 = some header.fileSize
  stringIds : header.stringIds.StandsAt b 0x38
  typeIds : header.typeIds.StandsAt b 0x40
  classDefs : header.classDefs.StandsAt b 0x60

/-- The items of the table lie inside the bytes. -/
def Table.Fits (table : Table) (b : ByteArray) (itemSize : ℕ) : Prop :=
  table.offset + table.size * itemSize ≤ b.size

instance (table : Table) (b : ByteArray) (itemSize : ℕ) : Decidable (table.Fits b itemSize) :=
  inferInstanceAs (Decidable (_ ≤ _))

/-- The header is one with which a container opens. -/
structure Header.IsAccepted (header : Header) (b : ByteArray) : Prop where
  long : minimumHeaderSize ≤ b.size
  magic : isMagic (b.extract 0 8).data.toList = true
  endianTag : header.endianTag = endianConstant
  size : minimumHeaderSize ≤ header.size
  fileSize : header.fileSize ≤ b.size
  stringIds : header.stringIds.Fits b 4
  typeIds : header.typeIds.Fits b 4
  classDefs : header.classDefs.Fits b classDefSize

def Header.container (header : Header) (b : ByteArray) : Container :=
  ⟨b, header.stringIds, header.typeIds, header.classDefs⟩

/-- The faults that keep a container from being opened. What runs past the end of the bytes is then
the file or a table. -/
inductive IsEarly : Fault → Prop
  | tooShort (size : ℕ) : IsEarly (.tooShort size)
  | badMagic (magic : List UInt8) : IsEarly (.badMagic magic)
  | unsupportedEndian (tag : ℕ) : IsEarly (.unsupportedEndian tag)
  | outOfBounds {place : Place} (offset : ℕ)
      (h : place ∈ [Place.file, .stringIds, .typeIds, .classDefs]) :
      IsEarly (.outOfBounds place offset)

section opening

variable {b : ByteArray} {start value : ℕ} {header : Header} {table : Table} {c : Container}
  {place : Place}

theorem readNumber_of_u32? (h : Bytes.u32? b start = some value) :
    readNumber b start place = .ok value := by rw [readNumber, h]

theorem u32?_of_readNumber (h : readNumber b start place = .ok value) :
    Bytes.u32? b start = some value := by
  unfold readNumber at h
  split at h
  · cases h
  · rename_i hread
    rw [hread, Except.ok.inj h]

theorem exists_readNumber (place : Place) (h : start + 4 ≤ b.size) :
    ∃ value, readNumber b start place = .ok value := by
  obtain ⟨value, hvalue⟩ := Bytes.exists_u32?_of_le h
  exact ⟨value, readNumber_of_u32? hvalue⟩

theorem Table.StandsAt.readTable_eq (h : table.StandsAt b start) :
    readTable b start = .ok table := by
  simp only [readTable, readNumber_of_u32? h.1, readNumber_of_u32? h.2]
  rfl

theorem standsAt_of_readTable (h : readTable b start = .ok table) : table.StandsAt b start := by
  obtain ⟨size, hsize, h⟩ := bind_eq_ok_iff.mp h
  obtain ⟨offset, hoffset, h⟩ := bind_eq_ok_iff.mp h
  rw [← Except.ok.inj h]
  exact ⟨u32?_of_readNumber hsize, u32?_of_readNumber hoffset⟩

theorem Table.StandsAt.lt (h : table.StandsAt b start) :
    table.size < 2 ^ 32 ∧ table.offset < 2 ^ 32 :=
  ⟨Bytes.lt_of_field? h.1, Bytes.lt_of_field? h.2⟩

theorem exists_table_of_le (h : start + 8 ≤ b.size) : ∃ table : Table, table.StandsAt b start := by
  obtain ⟨size, hsize⟩ := Bytes.exists_u32?_of_le (show start + 4 ≤ b.size by omega)
  obtain ⟨offset, hoffset⟩ := Bytes.exists_u32?_of_le (show start + 4 + 4 ≤ b.size by omega)
  exact ⟨⟨size, offset⟩, hsize, hoffset⟩

theorem exists_header (h : minimumHeaderSize ≤ b.size) : ∃ header : Header, header.IsOf b := by
  simp only [minimumHeaderSize] at h
  obtain ⟨tag, htag⟩ := Bytes.exists_u32?_of_le (show 0x28 + 4 ≤ b.size by omega)
  obtain ⟨size, hsize⟩ := Bytes.exists_u32?_of_le (show 0x24 + 4 ≤ b.size by omega)
  obtain ⟨file, hfile⟩ := Bytes.exists_u32?_of_le (show 0x20 + 4 ≤ b.size by omega)
  obtain ⟨strings, hstrings⟩ := exists_table_of_le (show 0x38 + 8 ≤ b.size by omega)
  obtain ⟨types, htypes⟩ := exists_table_of_le (show 0x40 + 8 ≤ b.size by omega)
  obtain ⟨defs, hdefs⟩ := exists_table_of_le (show 0x60 + 8 ≤ b.size by omega)
  exact ⟨⟨tag, size, file, strings, types, defs⟩, htag, hsize, hfile, hstrings, htypes, hdefs⟩

/-- Opening is a row of tests on the numbers of the header. -/
theorem Header.IsOf.open_eq (h : header.IsOf b) :
    Container.open b =
      if b.size < minimumHeaderSize then .error (.tooShort b.size)
      else if isMagic (b.extract 0 8).data.toList = false then
        .error (.badMagic (b.extract 0 8).data.toList)
      else if header.endianTag ≠ endianConstant then .error (.unsupportedEndian header.endianTag)
      else if header.size < minimumHeaderSize then .error (.tooShort header.size)
      else if b.size < header.fileSize then .error (.outOfBounds .file header.fileSize)
      else if ¬ header.stringIds.Fits b 4 then
        .error (.outOfBounds .stringIds header.stringIds.offset)
      else if ¬ header.typeIds.Fits b 4 then .error (.outOfBounds .typeIds header.typeIds.offset)
      else if ¬ header.classDefs.Fits b classDefSize then
        .error (.outOfBounds .classDefs header.classDefs.offset)
      else .ok (header.container b) := by
  simp only [Container.open, readNumber_of_u32? h.endianTag, readNumber_of_u32? h.size,
    readNumber_of_u32? h.fileSize, h.stringIds.readTable_eq, h.typeIds.readTable_eq,
    h.classDefs.readTable_eq, checkTable, Table.Fits, Nat.not_le,
    Bool.not_eq_eq_eq_not, Bool.not_true, bind, Except.bind, pure, Except.pure]
  split_ifs <;> rfl

theorem open_of_short (h : b.size < minimumHeaderSize) :
    Container.open b = .error (.tooShort b.size) := by
  simp only [Container.open, if_pos h, bind, Except.bind]

theorem open_eq_ok_iff : Container.open b = .ok c ↔
    ∃ header : Header, header.IsOf b ∧ header.IsAccepted b ∧ c = header.container b := by
  constructor
  · intro h
    rcases Nat.lt_or_ge b.size minimumHeaderSize with hshort | hlong
    · rw [open_of_short hshort] at h
      cases h
    · obtain ⟨header, hheader⟩ := exists_header hlong
      rw [hheader.open_eq] at h
      split_ifs at h with _ hmagic htag hsize hfile hstrings htypes hdefs
      refine ⟨header, hheader, ?_, (Except.ok.inj h).symm⟩
      exact ⟨hlong, Bool.eq_true_of_not_eq_false hmagic, not_not.mp htag, Nat.not_lt.mp hsize,
        Nat.not_lt.mp hfile, hstrings, htypes, hdefs⟩
  · rintro ⟨header, hheader, haccepted, rfl⟩
    rw [hheader.open_eq, if_neg (Nat.not_lt.mpr haccepted.long),
      if_neg (by rw [haccepted.magic]; decide), if_neg (not_not.mpr haccepted.endianTag),
      if_neg (Nat.not_lt.mpr haccepted.size), if_neg (Nat.not_lt.mpr haccepted.fileSize),
      if_neg (not_not.mpr haccepted.stringIds), if_neg (not_not.mpr haccepted.typeIds),
      if_neg (not_not.mpr haccepted.classDefs)]

/-- The numbers of the header itself are always there, if the bytes are long enough for it. -/
theorem isEarly_of_open {fault : Fault} (h : Container.open b = .error fault) : IsEarly fault := by
  rcases Nat.lt_or_ge b.size minimumHeaderSize with hshort | hlong
  · rw [open_of_short hshort] at h
    obtain rfl := Except.error.inj h
    exact .tooShort b.size
  · obtain ⟨header, hheader⟩ := exists_header hlong
    rw [hheader.open_eq, if_neg (Nat.not_lt.mpr hlong)] at h
    split_ifs at h <;> cases h
    · exact .badMagic _
    · exact .unsupportedEndian _
    · exact .tooShort _
    · exact .outOfBounds _ (by decide)
    · exact .outOfBounds _ (by decide)
    · exact .outOfBounds _ (by decide)
    · exact .outOfBounds _ (by decide)

theorem mem_of_open_eq_outOfBounds {offset : ℕ}
    (h : Container.open b = .error (.outOfBounds place offset)) :
    place ∈ [Place.file, .stringIds, .typeIds, .classDefs] := by
  cases isEarly_of_open h with
  | outOfBounds _ hplace => exact hplace

end opening

end VendorScreen.Dex
