import VendorScreen.Proofs.Dex.Image
import VendorScreen.Proofs.Dex.StringGrammar

namespace VendorScreen.Dex

/-!
# Cut and lengthened containers

Decoding looks at single bytes, and all that it makes of the number of bytes is to refuse. What it
gets from the first bytes of a container it therefore gets from the whole one. A cut container has
the names of the whole one or none, and bytes behind a container do not count.
-/

section beginnings

variable {b cut : ByteArray} {start stop value offset : ℕ} {text : String} {table : Table}
  {header : Header} {c : Container} {place : Place} {names : List String}

theorem ModifiedUtf8.read_of_isBeginning (h : Bytes.IsBeginning cut b)
    (hcut : read cut offset = .ok text) : read b offset = .ok text := by
  obtain ⟨bytes, hspells, hbytes⟩ := exists_spellsString hcut
  exact read_of_spellsString hspells (h.holds hbytes)

theorem readNumber_of_isBeginning (h : Bytes.IsBeginning cut b)
    (hcut : readNumber cut start place = .ok value) : readNumber b start place = .ok value :=
  readNumber_of_u32? (h.field?_eq (u32?_of_readNumber hcut))

theorem Table.StandsAt.of_isBeginning (h : Bytes.IsBeginning cut b)
    (hcut : table.StandsAt cut start) : table.StandsAt b start :=
  ⟨h.field?_eq hcut.1, h.field?_eq hcut.2⟩

theorem Table.Fits.of_isBeginning {itemSize : ℕ} (h : Bytes.IsBeginning cut b)
    (hcut : table.Fits cut itemSize) : table.Fits b itemSize := Nat.le_trans hcut h.size_le

theorem Header.IsOf.of_isBeginning (h : Bytes.IsBeginning cut b) (hcut : header.IsOf cut) :
    header.IsOf b where
  endianTag := h.field?_eq hcut.endianTag
  size := h.field?_eq hcut.size
  fileSize := h.field?_eq hcut.fileSize
  stringIds := hcut.stringIds.of_isBeginning h
  typeIds := hcut.typeIds.of_isBeginning h
  classDefs := hcut.classDefs.of_isBeginning h

theorem Header.IsAccepted.of_isBeginning (h : Bytes.IsBeginning cut b)
    (hcut : header.IsAccepted cut) : header.IsAccepted b where
  long := Nat.le_trans hcut.long h.size_le
  magic := by
    have hlong : 8 ≤ cut.size := Nat.le_trans (by decide) hcut.long
    rw [h.extract_eq hlong]
    exact hcut.magic
  endianTag := hcut.endianTag
  size := hcut.size
  fileSize := Nat.le_trans hcut.fileSize h.size_le
  stringIds := hcut.stringIds.of_isBeginning h
  typeIds := hcut.typeIds.of_isBeginning h
  classDefs := hcut.classDefs.of_isBeginning h

namespace Container

/-- The same tables in other bytes. -/
def withBytes (c : Container) (b : ByteArray) : Container := { c with bytes := b }

theorem open_of_isBeginning (h : Bytes.IsBeginning cut b) (hcut : Container.open cut = .ok c) :
    Container.open b = .ok (c.withBytes b) ∧ c.bytes = cut := by
  obtain ⟨header, hheader, haccepted, rfl⟩ := open_eq_ok_iff.mp hcut
  refine ⟨open_eq_ok_iff.mpr ⟨header, ?_, ?_, rfl⟩, rfl⟩
  · exact hheader.of_isBeginning h
  · exact haccepted.of_isBeginning h

theorem item_of_isBeginning {index : ℕ} (h : Bytes.IsBeginning c.bytes b)
    (hcut : c.item table place index = .ok value) :
    (c.withBytes b).item table place index = .ok value := by
  unfold item at hcut ⊢
  split_ifs at hcut ⊢ with hindex
  exact readNumber_of_isBeginning h hcut

theorem descriptor_eq_ok_iff {classDef : ℕ} : c.descriptor classDef = .ok text ↔
    ∃ typeIndex stringIndex offset,
      readNumber c.bytes (c.classDefs.offset + classDef * classDefSize) .classDef =
        .ok typeIndex ∧
      c.item c.typeIds .typeIds typeIndex = .ok stringIndex ∧
      c.item c.stringIds .stringIds stringIndex = .ok offset ∧
      ModifiedUtf8.read c.bytes offset = .ok text := by
  simp only [descriptor, bind_eq_ok_iff, exists_and_left]

theorem descriptor_of_isBeginning {classDef : ℕ} (h : Bytes.IsBeginning c.bytes b)
    (hcut : c.descriptor classDef = .ok text) : (c.withBytes b).descriptor classDef = .ok text := by
  rw [descriptor_eq_ok_iff] at hcut ⊢
  obtain ⟨typeIndex, stringIndex, offset, hdef, htype, hstring, hdata⟩ := hcut
  exact ⟨typeIndex, stringIndex, offset, readNumber_of_isBeginning h hdef,
    item_of_isBeginning h htype, item_of_isBeginning h hstring,
    ModifiedUtf8.read_of_isBeginning h hdata⟩

theorem name_of_isBeginning {classDef : ℕ} (h : Bytes.IsBeginning c.bytes b)
    (hcut : c.name classDef = .ok text) : (c.withBytes b).name classDef = .ok text := by
  obtain ⟨descriptor, hdescriptor, hname⟩ := bind_eq_ok_iff.mp hcut
  exact bind_eq_ok_iff.mpr ⟨descriptor, descriptor_of_isBeginning h hdescriptor, hname⟩

end Container

/-- Names that can be had from the first bytes are those of the whole. -/
theorem classNames_of_isBeginning (h : Bytes.IsBeginning cut b)
    (hcut : classNames cut = .ok names) : classNames b = .ok names := by
  rw [classNames_eq_ok_iff] at hcut ⊢
  obtain ⟨c, hopen, hlength, hnames⟩ := hcut
  obtain ⟨hopen', rfl⟩ := Container.open_of_isBeginning h hopen
  exact ⟨c.withBytes b, hopen', hlength, fun k hk => Container.name_of_isBeginning h (hnames k hk)⟩

theorem exists_fileSize_of_classNames (h : classNames b = .ok names) :
    ∃ fileSize, Bytes.u32? b 0x20 = some fileSize ∧ fileSize ≤ b.size := by
  obtain ⟨c, hopen, -, -⟩ := (classNames_eq_ok_iff b names).mp h
  obtain ⟨header, hheader, haccepted, -⟩ := open_eq_ok_iff.mp hopen
  exact ⟨header.fileSize, hheader.fileSize, haccepted.fileSize⟩

end beginnings

/-- A container that is cut in front of its declared end has no names. One that is cut later has
none or all, and one with more bytes behind it has all of them. -/
theorem classNames_cut_or_lengthened (b : ByteArray) (names : List String)
    (h : classNames b = .ok names) :
    ∃ fileSize, Bytes.u32? b 0x20 = some fileSize ∧ fileSize ≤ b.size ∧
      (∀ k < fileSize, ∃ fault, classNames (b.extract 0 k) = .error fault) ∧
      (∀ k, fileSize ≤ k → k ≤ b.size →
        (∃ fault, classNames (b.extract 0 k) = .error fault) ∨
          classNames (b.extract 0 k) = .ok names) ∧
      ∀ more, classNames (b ++ more) = .ok names := by
  obtain ⟨fileSize, hfile, hle⟩ := exists_fileSize_of_classNames h
  refine ⟨fileSize, hfile, hle, ?_, ?_, ?_⟩
  · intro k hk
    cases hcut : classNames (b.extract 0 k) with
    | error fault => exact ⟨fault, rfl⟩
    | ok names' =>
        -- The declared size is read from the cut bytes as well, and they are too few for it.
        obtain ⟨fileSize', hfile', hle'⟩ := exists_fileSize_of_classNames hcut
        have hsame := (Bytes.isBeginning_extract b k).field?_eq hfile'
        rw [← Bytes.u32?, hfile, Option.some.injEq] at hsame
        rw [ByteArray.size_extract] at hle'
        omega
  · intro k _ _
    cases hcut : classNames (b.extract 0 k) with
    | error fault => exact .inl ⟨fault, rfl⟩
    | ok names' =>
        have hsame := classNames_of_isBeginning (Bytes.isBeginning_extract b k) hcut
        rw [h, Except.ok.injEq] at hsame
        exact .inr (congrArg Except.ok hsame.symm)
  · intro more
    exact classNames_of_isBeginning (Bytes.isBeginning_append b more) h

/-- An image with another low byte of its declared size: that of a header alone. -/
def understatedImage (p q r : Fin 10) (descriptors : List String) : ByteArray :=
  (compactImage p q r descriptors).set! 0x20 0x70

/-- It has names as a whole, and none when it is cut at its declared end or at its last byte. -/
theorem classNames_cut_or_lengthened_sample :
    let b := understatedImage 0 3 5 ["La/B;"]
    classNames b = .ok ["a.B"] ∧ b.size = 0x9f ∧
    classNames (b.extract 0 0x70) = .error (.outOfBounds .stringIds 0x70) ∧
    classNames (b.extract 0 0x9e) = .error (.badString 0x98) ∧
    ∃ fileSize, Bytes.u32? b 0x20 = some fileSize ∧ fileSize ≤ b.size ∧
      (∀ k < fileSize, ∃ fault, classNames (b.extract 0 k) = .error fault) ∧
      (∀ k, fileSize ≤ k → k ≤ b.size →
        (∃ fault, classNames (b.extract 0 k) = .error fault) ∨
          classNames (b.extract 0 k) = .ok ["a.B"]) ∧
      ∀ more, classNames (b ++ more) = .ok ["a.B"] := by
  intro b
  have h : classNames b = .ok ["a.B"] := by decide +kernel
  refine ⟨h, by decide +kernel, by decide +kernel, by decide +kernel, ?_⟩
  exact classNames_cut_or_lengthened b ["a.B"] h

end VendorScreen.Dex
