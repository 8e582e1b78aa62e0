import VendorScreen.Proofs.Text.Utf8
import VendorScreen.Proofs.Zip.Bodies
import VendorScreen.Proofs.Zip.Directory

namespace VendorScreen.Zip

/-!
# Archives as they are written

An archive of stored items has a record for each of them, then the directory, then the record that
ends it. It opens wherever it stands behind other bytes, and a walk through it gives the items back.
-/

/-- A name and what is stored under it. The name fits the field for its length. -/
structure Item where
  name : String
  content : ByteArray
  notes : Notes
  name_le : name.utf8ByteSize ≤ 65535

/-- The flag of names that are UTF-8. -/
def utf8Flag : UInt16 := 0x0800

namespace Item

def crc (item : Item) : UInt32 := Crc32.checksum item.content

/-- The header of an item whose record stands at the offset. -/
def header (item : Item) (offset : ℕ) : Header where
  flags := utf8Flag
  method := 0
  crc := item.crc
  compressedSize := item.content.size.toUInt32
  size := item.content.size.toUInt32
  offset := offset.toUInt32
  name := Text.Utf8.encode item.name
  extra := []
  comment := []
  notes := item.notes
  name_lt := by
    rw [Text.Utf8.length_encode]
    exact Nat.lt_succ_of_le item.name_le
  extra_lt := by decide
  comment_lt := by decide

/-- The numbers in front of the data of an item. -/
def localNumbers (item : Item) : List Number := [
  .long 0x04034b50, .word item.notes.needed, .word utf8Flag, .word 0, .word item.notes.time,
  .word item.notes.date, .long item.crc, .long item.content.size.toUInt32,
  .long item.content.size.toUInt32, .ofLength (Text.Utf8.encode item.name), .word 0]

/-- The header in front of the data of an item, and the data as they are. -/
def record (item : Item) : List UInt8 :=
  item.localNumbers.flatMap Number.bytes ++ Text.Utf8.encode item.name ++ item.content.data.toList

def localHeader (item : Item) : LocalHeader where
  needed := item.notes.needed
  flags := utf8Flag
  method := 0
  time := item.notes.time
  date := item.notes.date
  crc := item.crc
  compressedSize := item.content.size.toUInt32
  size := item.content.size.toUInt32
  name := Text.Utf8.encode item.name
  extra := []
  name_lt := by
    rw [Text.Utf8.length_encode]
    exact Nat.lt_succ_of_le item.name_le
  extra_lt := by decide

theorem record_eq (item : Item) :
    item.record = item.localHeader.bytes ++ item.content.data.toList := by
  rw [LocalHeader.bytes, List.append_assoc _ item.localHeader.extra]
  rfl

/-- The entry that an item is listed as when its record stands at the position. -/
def entry (item : Item) (start : ℕ) : Entry where
  name := item.name
  isEncrypted := false
  method := 0
  crc := item.crc.toNat
  compressedSize := item.content.size
  size := item.content.size
  headerOffset := start
  hasEncryptionItem := false

theorem map_width_localNumbers (item : Item) :
    item.localNumbers.map Number.width = [4, 2, 2, 2, 2, 2, 4, 4, 4, 2, 2] := rfl

theorem length_flatMap_localNumbers (item : Item) :
    (item.localNumbers.flatMap Number.bytes).length = 30 := by
  simp only [List.length_flatMap, Number.length_bytes, item.map_width_localNumbers]
  rfl

theorem length_record (item : Item) :
    item.record.length = 30 + item.name.utf8ByteSize + item.content.size := by
  rw [record, List.length_append, List.length_append, item.length_flatMap_localNumbers,
    Text.Utf8.length_encode, Array.length_toList]
  rfl

/-- A header without an extra field says what it says. -/
theorem readAs_header {item : Item} {offset shift : ℕ} (hsize : item.content.size < 2 ^ 32)
    (hoffset : offset < 2 ^ 32) (hshift : offset + shift < 2 ^ 64) :
    (item.header offset).readAs shift = .ok (item.entry (offset + shift)) := by
  have hplain : (item.header offset).plainEntry = item.entry offset := by
    simp only [Header.plainEntry, header, entry, Number.toNat_toUInt32 hsize,
      Number.toNat_toUInt32 hoffset]
    rw [decodeName, if_pos (by decide), Text.Utf8.decodeLossy_encode]
    rfl
  have hextra : readExtra (item.header offset).extra.toByteArray 0 (item.entry offset) =
      .ok (item.entry offset) := by
    rw [readExtra]
    rfl
  have hmethod : ¬ ((item.entry offset).method = encryptedMethod ∧
      (item.entry offset).hasEncryptionItem = false) := by
    simp [entry, encryptedMethod]
  have hroom : ¬ Nat.pow 2 64 ≤ (item.entry offset).headerOffset + shift := Nat.not_le.mpr hshift
  rw [Header.readAs, hplain, hextra]
  dsimp only
  rw [if_neg hmethod, if_neg hroom]
  rfl

end Item

/-- The records of the items, one after the other. -/
def records (items : List Item) : List UInt8 := items.flatMap Item.record

def headersFrom (offset : ℕ) : List Item → List Header
  | [] => []
  | item :: rest => item.header offset :: headersFrom (offset + item.record.length) rest

def entriesFrom (start : ℕ) : List Item → List Entry
  | [] => []
  | item :: rest => item.entry start :: entriesFrom (start + item.record.length) rest

/-- The archive of some items with a comment at its end. -/
def zipped (items : List Item) (comment : List UInt8) : List UInt8 :=
  records items ++ (directory (headersFrom 0 items) ++ endRecord items.length
    (directory (headersFrom 0 items)).length (records items).length comment)

@[simp] theorem length_headersFrom (offset : ℕ) (items : List Item) :
    (headersFrom offset items).length = items.length := by
  induction items generalizing offset with
  | nil => rfl
  | cons item items ih => simp [headersFrom, ih]

@[simp] theorem length_entriesFrom (start : ℕ) (items : List Item) :
    (entriesFrom start items).length = items.length := by
  induction items generalizing start with
  | nil => rfl
  | cons item items ih => simp [entriesFrom, ih]

theorem forall₂_readAs_headersFrom (items : List Item) (offset shift : ℕ)
    (hfit : offset + (records items).length < 2 ^ 32)
    (hshift : offset + (records items).length + shift ≤ 2 ^ 64) :
    List.Forall₂ (fun h entry => h.readAs shift = .ok entry) (headersFrom offset items)
      (entriesFrom (offset + shift) items) := by
  induction items generalizing offset with
  | nil => exact .nil
  | cons item items ih =>
      rw [records, List.flatMap_cons, List.length_append] at hfit hshift
      have hlength := item.length_record
      have hrest := ih (offset + item.record.length) (by rw [records]; omega)
        (by rw [records]; omega)
      rw [Nat.add_right_comm] at hrest
      exact .cons (Item.readAs_header (by omega) (by omega) (by omega)) hrest

/-- What opening the entry and reading it gives is the item. -/
structure Delivers (b : ByteArray) (item : Item) (entry : Entry) : Prop where
  name : entry.name = item.name
  size : entry.size = item.content.size
  header : HasLocalHeader b entry
  body : ∃ e, entry.open b = .opened e ∧ e.source.drain = .ok item.content

section reading

variable {b : ByteArray} {start : ℕ}

/-- The data of an item stand behind its name. -/
theorem dataStart_of_holds {item : Item} (h : Bytes.Holds b start item.record) :
    dataStart b (item.entry start) = .ok (start + 30 + item.name.utf8ByteSize) := by
  rw [item.record_eq, Bytes.holds_append] at h
  have hstart : dataStart b (item.entry start) = .ok (start + item.localHeader.bytes.length) :=
    LocalHeader.dataStart_eq h.1
  rw [hstart, LocalHeader.length_bytes]
  simp [Item.localHeader, Text.Utf8.length_encode, Nat.add_assoc]

theorem extract_of_holds {bytes : ByteArray} (h : Bytes.Holds b start bytes.data.toList) :
    b.extract start (start + bytes.size) = bytes := by
  apply ByteArray.ext
  apply Array.ext'
  have hextract := h.extract
  rwa [Array.length_toList] at hextract

/-- What stands behind the name of an item is its content. -/
theorem content_of_holds {item : Item} (h : Bytes.Holds b start item.record) :
    b.extract (start + 30 + item.name.utf8ByteSize)
      (min (start + 30 + item.name.utf8ByteSize + item.content.size) b.size) = item.content := by
  have hsize : start + item.record.length ≤ b.size := by
    refine h.le_size (List.ne_nil_of_length_pos ?_)
    rw [item.length_record]
    omega
  rw [item.length_record] at hsize
  have hcontent : Bytes.Holds b (start + 30 + item.name.utf8ByteSize) item.content.data.toList := by
    rw [Item.record, Bytes.holds_append, List.length_append, item.length_flatMap_localNumbers,
      Text.Utf8.length_encode, ← Nat.add_assoc] at h
    exact h.2
  have hstop : min (start + 30 + item.name.utf8ByteSize + item.content.size) b.size =
      start + 30 + item.name.utf8ByteSize + item.content.size := by omega
  rw [hstop]
  exact extract_of_holds hcontent

theorem delivers_of_holds {item : Item} (h : Bytes.Holds b start item.record) :
    Delivers b item (item.entry start) := by
  have hstart := dataStart_of_holds h
  refine ⟨rfl, rfl, ⟨_, hstart⟩, ⟨item.entry start, .stored, item.content⟩, ?_, ?_⟩
  · rw [Entry.open, hstart]
    simp [Item.entry, Method.ofNumber?, content_of_holds h]
  · exact (OpenEntry.drain_eq_ok_iff _ _).mpr ⟨rfl, rfl⟩

theorem forall₂_delivers {items : List Item} (h : Bytes.Holds b start (records items)) :
    List.Forall₂ (Delivers b) items (entriesFrom start items) := by
  induction items generalizing start with
  | nil => exact .nil
  | cons item items ih =>
      rw [records, List.flatMap_cons, Bytes.holds_append] at h
      exact .cons (delivers_of_holds h.1) (ih h.2)

end reading

/-- The next entries of the walk give the items one by one, and then there is none. -/
def Walk.Yields (w : Walk) : List Item → Prop
  | [] => w.next? = none
  | item :: rest => ∃ e w', w.next? = some (.opened e, w') ∧ e.entry.name = item.name ∧
      e.entry.size = item.content.size ∧ e.source.drain = .ok item.content ∧ w'.Yields rest

theorem Walk.yields_of_delivers {w : Walk} {items : List Item}
    (h : List.Forall₂ (Delivers w.archive.bytes) items w.rest) : w.Yields items := by
  induction items generalizing w with
  | nil =>
      rw [List.forall₂_nil_left_iff] at h
      simp [Yields, next?, h]
  | cons item items ih =>
      obtain ⟨entry, rest, hitem, hrest, hw⟩ := List.forall₂_cons_left_iff.mp h
      obtain ⟨e, hopen, hbody⟩ := hitem.body
      have hentry := Entry.entry_of_open hopen
      refine ⟨e, { w with index := w.index + 1, rest }, ?_, ?_, ?_, hbody, ih hrest⟩
      · simp [next?, hw, hopen]
      · rw [hentry, hitem.name]
      · rw [hentry, hitem.size]

theorem findName?_of_delivers {a : Archive} {items : List Item}
    (h : List.Forall₂ (Delivers a.bytes) items a.entries) (stem : String) :
    a.findName? stem =
      (items.find? fun item => stem.toList.isPrefixOf item.name.toList).map Item.name := by
  rw [Archive.findName?]
  generalize a.entries = entries at h
  induction h with
  | nil => rfl
  | @cons item entry items entries hitem hrest ih =>
      obtain ⟨start, hstart⟩ := hitem.header
      have hok : (dataStart a.bytes entry).isOk = true := by rw [hstart]; rfl
      rw [List.find?_cons, List.find?_cons, hok, Bool.true_and, hitem.name]
      cases stem.toList.isPrefixOf item.name.toList with
      | true => exact congrArg some hitem.name
      | false => exact ih

/-- An archive of stored items, behind any bytes that leave its size within the reach of addresses,
opens and gives the items back, in order and as often as they were written, unless the bytes behind
its end record hold the mark of another or the bytes in front of it the mark of a wide locator. -/
theorem written_archive_reads_back (before : List UInt8) (items : List Item) (comment : List UInt8)
    (b : ByteArray) (hb : b = (before ++ zipped items comment).toByteArray)
    (hcount : items.length ≤ 65535) (hcomment : comment.length ≤ 65535)
    (hlayout : (zipped items comment).length < 2 ^ 32) (hsize : b.size ≤ 2 ^ 64)
    (hlast : ∀ k ≤ b.size - 22, b.size - 22 - comment.length < k →
      Bytes.u32? b k ≠ some endRecordMark)
    (hnarrow : 42 + comment.length ≤ b.size →
      Bytes.u32? b (b.size - 42 - comment.length) ≠ some wideLocatorMark) :
    ∃ archive, Archive.open b = .ok archive ∧ archive.entries.length = items.length ∧
      archive.walk.Yields items ∧
      ∀ stem, archive.findName? stem =
        (items.find? fun item => stem.toList.isPrefixOf item.name.toList).map Item.name := by
  have hlength : (zipped items comment).length = (records items).length
      + (directory (headersFrom 0 items)).length + 22 + comment.length := by
    simp only [zipped, List.length_append, length_endRecord, endRecordSize]
    omega
  have htotal : b.size = before.length + (zipped items comment).length := by
    rw [hb, List.size_toByteArray, List.length_append]
  have harchive : IsArchive b (before ++ records items) before.length (headersFrom 0 items)
      comment := by
    have hfront : (before ++ records items).length - before.length = (records items).length := by
      rw [List.length_append, Nat.add_sub_cancel_left]
    have hposition : (before ++ records items).length + (directory (headersFrom 0 items)).length =
        b.size - 22 - comment.length := by
      rw [List.length_append]
      omega
    refine ⟨?_, ?_, ?_, by omega, ?_, by omega, ?_, ?_⟩
    · rw [hb, hfront, zipped, length_headersFrom, List.append_assoc]
    · rw [List.length_append]
      omega
    · omega
    · rw [length_headersFrom]
      omega
    · intro k hk hbehind
      exact hlast k hk (hposition ▸ hbehind)
    · intro hroom
      have hplace : b.size - 22 - comment.length - 20 = b.size - 42 - comment.length := by omega
      rw [hposition] at hroom ⊢
      rw [hplace]
      exact hnarrow (by omega)
  have hread := forall₂_readAs_headersFrom items 0 before.length (by omega) (by omega)
  rw [Nat.zero_add] at hread
  have hrecords : Bytes.Holds b before.length (records items) := by
    rw [hb]
    exact Bytes.holds_toByteArray before (records items) _
  have hdelivers := forall₂_delivers hrecords
  exact ⟨_, harchive.open_eq hread, length_entriesFrom _ _, Walk.yields_of_delivers hdelivers,
    findName?_of_delivers hdelivers⟩

/-- Two items of one name, one of them empty, behind the mark of an end record. -/
def sampleItems : List Item :=
  [⟨"é", ⟨#[0x78]⟩, ⟨0x0314, 20, 0, 0x21, 0, 0, 0⟩, by decide⟩,
    ⟨"a", ⟨#[]⟩, ⟨0x0314, 20, 0, 0x21, 0, 0, 0⟩, by decide⟩,
    ⟨"a", ⟨#[0, 0xff]⟩, ⟨0x0314, 20, 0, 0x21, 0, 0, 0x81a40000⟩, by decide⟩]

def sampleComment : List UInt8 := [0x50, 0x4b]

def sampleArchive : ByteArray :=
  ⟨([0x50, 0x4b, 5, 6] ++ zipped sampleItems sampleComment).toArray⟩

theorem written_archive_reads_back_sample :
    sampleItems.length ≤ 65535 ∧ sampleComment.length ≤ 65535 ∧
    (zipped sampleItems sampleComment).length < 2 ^ 32 ∧ sampleArchive.size ≤ 2 ^ 64 ∧
    (∀ k ≤ sampleArchive.size - 22, sampleArchive.size - 22 - sampleComment.length < k →
      Bytes.u32? sampleArchive k ≠ some endRecordMark) ∧
    Bytes.u32? sampleArchive (sampleArchive.size - 42 - sampleComment.length) ≠
      some wideLocatorMark ∧
    ∃ archive, Archive.open sampleArchive = .ok archive ∧ archive.entries.length = 3 ∧
      archive.walk.Yields sampleItems ∧ archive.findName? "a" = some "a" := by
  have hitems : sampleItems.length ≤ 65535 := by decide +kernel
  have hcomment : sampleComment.length ≤ 65535 := by decide +kernel
  have hlayout : (zipped sampleItems sampleComment).length < 2 ^ 32 := by decide +kernel
  have hsize : sampleArchive.size ≤ 2 ^ 64 := by decide +kernel
  have hlast : ∀ k ≤ sampleArchive.size - 22, sampleArchive.size - 22 - sampleComment.length < k →
      Bytes.u32? sampleArchive k ≠ some endRecordMark := by decide +kernel
  have hnarrow : Bytes.u32? sampleArchive (sampleArchive.size - 42 - sampleComment.length) ≠
      some wideLocatorMark := by decide +kernel
  obtain ⟨archive, hopen, hlength, hyields, hfind⟩ :=
    written_archive_reads_back [0x50, 0x4b, 5, 6] sampleItems sampleComment sampleArchive
      (ByteArray.ext List.data_toByteArray.symm) hitems hcomment hlayout hsize hlast
      fun _ => hnarrow
  refine ⟨hitems, hcomment, hlayout, hsize, hlast, hnarrow, archive, hopen, hlength, hyields, ?_⟩
  rw [hfind]
  decide +kernel

end VendorScreen.Zip
