import VendorScreen.Proofs.Dex.Image
import VendorScreen.Proofs.Dex.StringGrammar

namespace VendorScreen.Dex

/-!
# Reads inside the container

Offsets, sizes and indices come from whoever wrote the container. Opening compares each table with
the number of bytes, and after that every position that is worked out from an index below the size
of its table lies inside. So what decoding can still find fault with is an index, a string or a
descriptor, and positions could be kept in words of any width that holds the number of bytes.
-/

/-- The faults that are left once the tables lie inside the container. -/
inductive Container.IsLate (c : Container) : Fault → Prop
  | typeIndex {index : ℕ} (h : c.typeIds.size ≤ index) :
      IsLate c (.indexOutOfRange .typeIds index c.typeIds.size)
  | stringIndex {index : ℕ} (h : c.stringIds.size ≤ index) :
      IsLate c (.indexOutOfRange .stringIds index c.stringIds.size)
  | string (offset : ℕ) : IsLate c (.badString offset)
  | descriptor {descriptor : String} (h : ¬ IsClassDescriptor descriptor) :
      IsLate c (.badDescriptor descriptor)

structure Container.TablesFit (c : Container) : Prop where
  stringIds : c.stringIds.Fits c.bytes 4
  typeIds : c.typeIds.Fits c.bytes 4
  classDefs : c.classDefs.Fits c.bytes classDefSize

section bounds

variable {b : ByteArray} {c : Container} {table : Table} {itemSize index k : ℕ} {place : Place}
  {fault : Fault}

theorem Container.tablesFit_of_open (h : Container.open b = .ok c) : c.TablesFit ∧ c.bytes = b := by
  obtain ⟨header, -, haccepted, rfl⟩ := open_eq_ok_iff.mp h
  exact ⟨⟨haccepted.stringIds, haccepted.typeIds, haccepted.classDefs⟩, rfl⟩

theorem Table.Fits.item_le (h : table.Fits b itemSize) (hindex : index < table.size) :
    table.offset + index * itemSize + itemSize ≤ b.size := by
  have hitems : (index + 1) * itemSize ≤ table.size * itemSize :=
    Nat.mul_le_mul_right itemSize hindex
  rw [Nat.succ_mul] at hitems
  simp only [Table.Fits] at h
  omega

theorem Table.Fits.size_le (h : table.Fits b itemSize) (hitem : 0 < itemSize) :
    table.size ≤ b.size :=
  calc table.size ≤ table.size * itemSize := Nat.le_mul_of_pos_right _ hitem
    _ ≤ table.offset + table.size * itemSize := Nat.le_add_left _ _
    _ ≤ b.size := h

namespace Container

theorem item_eq_error (h : table.Fits c.bytes 4) (herror : c.item table place index = .error fault) :
    table.size ≤ index ∧ fault = .indexOutOfRange place index table.size := by
  unfold item at herror
  split_ifs at herror with hindex
  · exact ⟨hindex, (Except.error.inj herror).symm⟩
  · obtain ⟨value, hvalue⟩ := exists_readNumber place (h.item_le (Nat.not_le.mp hindex))
    rw [hvalue] at herror
    cases herror

/-- The type of a class is the first number of its definition. -/
theorem TablesFit.type_le (h : c.TablesFit) (hk : k < c.classDefs.size) :
    c.classDefs.offset + k * classDefSize + 4 ≤ c.bytes.size :=
  Nat.le_trans (Nat.add_le_add_left (by decide) _) (h.classDefs.item_le hk)

theorem isLate_of_descriptor (h : c.TablesFit) (hk : k < c.classDefs.size)
    (herror : c.descriptor k = .error fault) : c.IsLate fault := by
  obtain ⟨typeIndex, htype⟩ := exists_readNumber .classDef (h.type_le hk)
  simp only [descriptor, bind_eq_error_iff, htype, reduceCtorEq, Except.ok.injEq, false_or,
    exists_eq_left'] at herror
  rcases herror with hitem | ⟨stringIndex, -, hitem | ⟨offset, -, hread⟩⟩
  · obtain ⟨hindex, rfl⟩ := item_eq_error h.typeIds hitem
    exact .typeIndex hindex
  · obtain ⟨hindex, rfl⟩ := item_eq_error h.stringIds hitem
    exact .stringIndex hindex
  · rcases ModifiedUtf8.read_eq_ok_or_error c.bytes offset with ⟨text, htext⟩ | hbad
    · rw [htext] at hread
      cases hread
    · rw [hbad, Except.error.injEq] at hread
      exact hread ▸ .string offset

theorem isLate_of_name (h : c.TablesFit) (hk : k < c.classDefs.size)
    (herror : c.name k = .error fault) : c.IsLate fault := by
  rcases bind_eq_error_iff.mp herror with hdescriptor | ⟨descriptor, -, hname⟩
  · exact isLate_of_descriptor h hk hdescriptor
  · by_cases hclass : IsClassDescriptor descriptor
    · rw [className_of_isClassDescriptor hclass] at hname
      cases hname
    · rw [className_of_not_isClassDescriptor hclass, Except.error.injEq] at hname
      exact hname ▸ .descriptor hclass

theorem isLate_of_names (h : c.TablesFit) (herror : c.names = .error fault) : c.IsLate fault := by
  obtain ⟨k, hk, hname⟩ := exists_of_namesFrom_eq_error herror
  rw [Nat.zero_add] at hname
  exact isLate_of_name h hk hname

end Container

theorem not_isLate_outOfBounds (place : Place) (offset : ℕ) :
    ¬ c.IsLate (.outOfBounds place offset) := by
  intro h
  cases h

/-- Only opening runs past the end of the bytes. -/
theorem open_of_classNames_eq_outOfBounds {offset : ℕ}
    (h : classNames b = .error (.outOfBounds place offset)) :
    Container.open b = .error (.outOfBounds place offset) := by
  rcases bind_eq_error_iff.mp h with hopen | ⟨c, hopen, hnames⟩
  · exact hopen
  · have hlate := Container.isLate_of_names (Container.tablesFit_of_open hopen).1 hnames
    exact absurd hlate (not_isLate_outOfBounds place offset)

end bounds

section words

/-- What a word of so many bits keeps of a number. -/
def inWord (bits n : ℕ) : ℕ := n % 2 ^ bits

/-- Reads a number when positions are kept in words. The end of the number is a position too. -/
def readNumberIn (bits : ℕ) (b : ByteArray) (start : ℕ) (place : Place) : Except Fault ℕ :=
  let stop := inWord bits (start + 4)
  if start ≤ stop ∧ stop ≤ b.size then readNumber b start place
  else .error (.outOfBounds place start)

def Table.positionIn (bits : ℕ) (table : Table) (itemSize index : ℕ) : ℕ :=
  inWord bits (table.offset + inWord bits (index * itemSize))

def Container.itemIn (bits : ℕ) (c : Container) (table : Table) (place : Place) (index : ℕ) :
    Except Fault ℕ :=
  if table.size ≤ index then .error (.indexOutOfRange place index table.size)
  else readNumberIn bits c.bytes (table.positionIn bits 4 index) place

/-- The descriptor of a class when all positions are kept in words. -/
def Container.descriptorIn (bits : ℕ) (c : Container) (classDef : ℕ) : Except Fault String := do
  let typeIndex ← readNumberIn bits c.bytes
    (c.classDefs.positionIn bits classDefSize classDef) .classDef
  let stringIndex ← c.itemIn bits c.typeIds .typeIds typeIndex
  let offset ← c.itemIn bits c.stringIds .stringIds stringIndex
  ModifiedUtf8.read c.bytes offset

variable {bits : ℕ} {b : ByteArray} {c : Container} {table : Table} {itemSize index k start : ℕ}

theorem inWord_eq {n : ℕ} (hn : n ≤ b.size) (hbits : b.size < 2 ^ bits) : inWord bits n = n :=
  Nat.mod_eq_of_lt (Nat.lt_of_le_of_lt hn hbits)

theorem readNumberIn_eq (place : Place) (hwithin : start + 4 ≤ b.size) (hbits : b.size < 2 ^ bits) :
    readNumberIn bits b start place = readNumber b start place := by
  simp only [readNumberIn, inWord_eq hwithin hbits]
  rw [if_pos ⟨Nat.le_add_right start 4, hwithin⟩]

theorem Table.Fits.positionIn_eq (h : table.Fits b itemSize) (hindex : index < table.size)
    (hbits : b.size < 2 ^ bits) :
    table.positionIn bits itemSize index = table.offset + index * itemSize := by
  have hitem := h.item_le hindex
  rw [positionIn, inWord_eq (n := index * itemSize) (by omega) hbits, inWord_eq (by omega) hbits]

theorem Container.itemIn_eq (place : Place) (h : table.Fits c.bytes 4)
    (hbits : c.bytes.size < 2 ^ bits) (index : ℕ) :
    c.itemIn bits table place index = c.item table place index := by
  unfold itemIn item
  split_ifs with hindex
  · rfl
  · have hbelow := Nat.not_le.mp hindex
    rw [h.positionIn_eq hbelow hbits, readNumberIn_eq place (h.item_le hbelow) hbits]

theorem Container.descriptorIn_eq (h : c.TablesFit) (hbits : c.bytes.size < 2 ^ bits)
    (hk : k < c.classDefs.size) : c.descriptorIn bits k = c.descriptor k := by
  simp only [descriptorIn, descriptor, h.classDefs.positionIn_eq hk hbits,
    readNumberIn_eq _ (h.type_le hk) hbits, itemIn_eq _ h.typeIds hbits, itemIn_eq _ h.stringIds hbits]

end words

/-- A declared length is refused, or the units fit behind it. -/
theorem ModifiedUtf8.refused_or_le {b : ByteArray} {offset length start : ℕ}
    (h : Leb128.read? b offset = some (length, start)) :
    (b.size - start < length ∧ read b offset = .error (.badString offset)) ∨
      start + length ≤ b.size := by
  by_cases hroom : b.size - start < length
  · exact .inl ⟨hroom, by simp only [read, h, if_pos hroom]⟩
  · obtain ⟨bytes, value, hspells, -, hbytes, -, rfl⟩ := Leb128.read?_eq_some_iff.mp h
    have hwithin := hbytes.le_size (by cases hspells <;> simp)
    exact .inr (by omega)

/-- Once a container is open, positions are inside it. Its names can then only be missing for an
index, a string or a descriptor; every number that is looked up in a table ends inside the bytes,
so words that hold the number of bytes hold all positions; and no count for which room is made is
larger. The extent of a table has less than 64 bits whatever its header says. What runs past the
end is noticed while the container is opened, and is the file or a table. -/
theorem classNames_reads_inside (b : ByteArray) :
    (∀ c, Container.open b = .ok c →
      (∀ fault, c.names = .error fault → c.IsLate fault) ∧
      c.classDefs.size ≤ b.size ∧
      (∀ k < c.classDefs.size, c.classDefs.offset + k * classDefSize + 4 ≤ b.size) ∧
      (∀ index < c.typeIds.size, c.typeIds.offset + index * 4 + 4 ≤ b.size) ∧
      (∀ index < c.stringIds.size, c.stringIds.offset + index * 4 + 4 ≤ b.size) ∧
      ∀ bits, b.size < 2 ^ bits →
        ∀ k < c.classDefs.size, c.descriptorIn bits k = c.descriptor k) ∧
    (∀ offset length start, Leb128.read? b offset = some (length, start) →
      (b.size - start < length ∧ ModifiedUtf8.read b offset = .error (.badString offset)) ∨
        length ≤ b.size) ∧
    (∀ start table itemSize, readTable b start = .ok table → itemSize ≤ classDefSize →
      table.offset + table.size * itemSize < 2 ^ 64) ∧
    ∀ place offset, classNames b = .error (.outOfBounds place offset) →
      place ∈ [Place.file, .stringIds, .typeIds, .classDefs] ∧
        Container.open b = .error (.outOfBounds place offset) := by
  refine ⟨?_, ?_, ?_, ?_⟩
  · intro c hopen
    obtain ⟨hfit, rfl⟩ := Container.tablesFit_of_open hopen
    refine ⟨?_, hfit.classDefs.size_le (by decide), ?_, ?_, ?_, ?_⟩
    · exact fun fault => Container.isLate_of_names hfit
    · exact fun k => hfit.type_le
    · exact fun index => hfit.typeIds.item_le
    · exact fun index => hfit.stringIds.item_le
    · exact fun bits hbits k => Container.descriptorIn_eq hfit hbits
  · intro offset length start hlength
    exact (ModifiedUtf8.refused_or_le hlength).imp_right (Nat.le_trans (Nat.le_add_left _ _))
  · intro start table itemSize htable hitem
    obtain ⟨hsize, hoffset⟩ := (standsAt_of_readTable htable).lt
    have hextent : table.size * itemSize ≤ table.size * classDefSize :=
      Nat.mul_le_mul_left table.size hitem
    simp only [classDefSize] at hextent
    omega
  · intro place offset h
    have hopen := open_of_classNames_eq_outOfBounds h
    exact ⟨mem_of_open_eq_outOfBounds hopen, hopen⟩

end VendorScreen.Dex
