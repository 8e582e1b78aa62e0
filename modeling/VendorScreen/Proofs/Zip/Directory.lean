import VendorScreen.Proofs.ByteRuns
import VendorScreen.Proofs.Zip.Entries

namespace VendorScreen.Zip

/-!
# Directories as they are written

An archive ends with a header for each entry, in order, and a record that says where they begin. How
a header is read does not depend on where it stands, so an archive opens with the entries of its
headers whatever stands in front of them.
-/

/-- A number in a header, which is two or four bytes wide. -/
inductive Number where
  | word (n : UInt16)
  | long (n : UInt32)
deriving DecidableEq, Repr

namespace Number

def value : Number → ℕ
  | word n => n.toNat
  | long n => n.toNat

def width : Number → ℕ
  | word _ => 2
  | long _ => 4

def bytes (n : Number) : List UInt8 := Bytes.ofField n.value n.width

@[simp] theorem length_bytes (n : Number) : n.bytes.length = n.width :=
  Bytes.length_ofField n.value n.width

theorem value_lt (n : Number) : n.value < 256 ^ n.width := by
  cases n with
  | word n => exact n.toNat_lt
  | long n => exact n.toNat_lt

/-- The length of a part, in the field in front of it. -/
def ofLength (l : List UInt8) : Number := word l.length.toUInt16

theorem toNat_toUInt16 {n : ℕ} (h : n < 2 ^ 16) : n.toUInt16.toNat = n :=
  UInt16.toNat_ofNat_of_lt' h

theorem toNat_toUInt32 {n : ℕ} (h : n < 2 ^ 32) : n.toUInt32.toNat = n :=
  UInt32.toNat_ofNat_of_lt' h

/-- A number is read back at its place among the others. -/
theorem field?_of_holds {b : ByteArray} {start : ℕ} {ns : List Number} {widths : List ℕ}
    (h : Bytes.Holds b start (ns.flatMap bytes)) (hwidths : ns.map width = widths) (k : ℕ)
    {n : Number} (hn : ns[k]? = some n) :
    Bytes.field? b (start + (widths.take k).sum) n.width = some n.value := by
  subst hwidths
  induction ns generalizing start k with
  | nil => simp at hn
  | cons first ns ih =>
      rw [List.flatMap_cons, Bytes.holds_append, length_bytes] at h
      cases k with
      | zero =>
          obtain rfl : first = n := by simpa using hn
          exact Bytes.field?_of_holds first.value_lt h.1
      | succ k =>
          have hlater := ih h.2 k (by simpa using hn)
          simpa [Nat.add_assoc] using hlater

end Number

/-- What a writer notes in headers without any effect on how they are read. -/
structure Notes where
  madeBy : UInt16
  needed : UInt16
  time : UInt16
  date : UInt16
  disk : UInt16
  internalAttributes : UInt16
  externalAttributes : UInt32
deriving DecidableEq, Repr

/-- A directory header. The lengths of its three parts fit the fields for them. -/
structure Header where
  flags : UInt16
  method : UInt16
  crc : UInt32
  compressedSize : UInt32
  size : UInt32
  offset : UInt32
  name : List UInt8
  extra : List UInt8
  comment : List UInt8
  notes : Notes
  name_lt : name.length < 2 ^ 16
  extra_lt : extra.length < 2 ^ 16
  comment_lt : comment.length < 2 ^ 16

namespace Header

/-- The numbers that every header begins with. -/
def numbers (h : Header) : List Number := [
  .long 0x02014b50, .word h.notes.madeBy, .word h.notes.needed, .word h.flags, .word h.method,
  .word h.notes.time, .word h.notes.date, .long h.crc, .long h.compressedSize, .long h.size,
  .ofLength h.name, .ofLength h.extra, .ofLength h.comment, .word h.notes.disk,
  .word h.notes.internalAttributes, .long h.notes.externalAttributes, .long h.offset]

def bytes (h : Header) : List UInt8 :=
  h.numbers.flatMap Number.bytes ++ h.name ++ h.extra ++ h.comment

theorem map_width_numbers (h : Header) :
    h.numbers.map Number.width = [4, 2, 2, 2, 2, 2, 2, 4, 4, 4, 2, 2, 2, 2, 2, 4, 4] := rfl

theorem length_flatMap_numbers (h : Header) :
    (h.numbers.flatMap Number.bytes).length = fixedHeaderSize := by
  simp only [List.length_flatMap, Number.length_bytes, h.map_width_numbers]
  rfl

theorem length_bytes (h : Header) : h.bytes.length =
    fixedHeaderSize + h.name.length + h.extra.length + h.comment.length := by
  simp only [bytes, List.length_append, h.length_flatMap_numbers]

/-- What the header says before its extra field is taken in. -/
def plainEntry (h : Header) : Entry where
  name := decodeName (h.flags.toNat.testBit 11) h.name.toByteArray
  isEncrypted := h.flags.toNat.testBit 0
  method := h.method.toNat
  crc := h.crc.toNat
  compressedSize := h.compressedSize.toNat
  size := h.size.toNat
  headerOffset := h.offset.toNat
  hasEncryptionItem := false

/-- What the header is read as in an archive whose offsets are shifted. -/
def readAs (h : Header) (shift : ℕ) : Except Fault Entry :=
  match readExtra h.extra.toByteArray 0 h.plainEntry with
  | .error fault => .error fault
  | .ok entry =>
      if entry.method = encryptedMethod ∧ entry.hasEncryptionItem = false then
        .error (.malformed .encryptionItemMissing)
      else if Nat.pow 2 64 ≤ entry.headerOffset + shift then .error (.malformed .headerOffset)
      else .ok { entry with headerOffset := entry.headerOffset + shift }

end Header

/-- The header in front of the data of an entry. The lengths of its two parts fit the fields for
them. -/
structure LocalHeader where
  needed : UInt16
  flags : UInt16
  method : UInt16
  time : UInt16
  date : UInt16
  crc : UInt32
  compressedSize : UInt32
  size : UInt32
  name : List UInt8
  extra : List UInt8
  name_lt : name.length < 2 ^ 16
  extra_lt : extra.length < 2 ^ 16

namespace LocalHeader

def numbers (h : LocalHeader) : List Number := [
  .long 0x04034b50, .word h.needed, .word h.flags, .word h.method, .word h.time, .word h.date,
  .long h.crc, .long h.compressedSize, .long h.size, .ofLength h.name, .ofLength h.extra]

def bytes (h : LocalHeader) : List UInt8 := h.numbers.flatMap Number.bytes ++ h.name ++ h.extra

theorem map_width_numbers (h : LocalHeader) :
    h.numbers.map Number.width = [4, 2, 2, 2, 2, 2, 4, 4, 4, 2, 2] := rfl

theorem length_bytes (h : LocalHeader) : h.bytes.length = 30 + h.name.length + h.extra.length := by
  simp only [bytes, List.length_append, List.length_flatMap, Number.length_bytes,
    h.map_width_numbers]
  rfl

/-- The data of an entry stand behind the header in front of them, whatever else it says. -/
theorem dataStart_eq {b : ByteArray} {entry : Entry} {h : LocalHeader}
    (hh : Bytes.Holds b entry.headerOffset h.bytes) :
    dataStart b entry = .ok (entry.headerOffset + h.bytes.length) := by
  rw [bytes, Bytes.holds_append, Bytes.holds_append] at hh
  have hfield := Number.field?_of_holds hh.1.1 h.map_width_numbers
  have hmark : Bytes.u32? b entry.headerOffset = some 0x04034b50 := hfield 0 rfl
  have hname : Bytes.u16? b (entry.headerOffset + 26) = some h.name.length := by
    rw [← Number.toNat_toUInt16 h.name_lt]
    exact hfield 9 rfl
  have hextra : Bytes.u16? b (entry.headerOffset + 28) = some h.extra.length := by
    rw [← Number.toNat_toUInt16 h.extra_lt]
    exact hfield 10 rfl
  simp [dataStart, hmark, hname, hextra, h.length_bytes, Nat.add_assoc]

end LocalHeader

section reading

variable {b : ByteArray} {start shift : ℕ}

theorem slice?_of_holds {l : List UInt8} (h : Bytes.Holds b start l)
    (hsize : start + l.length ≤ b.size) : slice? b start l.length = some l.toByteArray := by
  rw [slice?, if_pos hsize, h.extract_eq]

/-- A header is read in the same way wherever it stands. -/
theorem readEntry_of_holds {h : Header} (hh : Bytes.Holds b start h.bytes) :
    readEntry b shift start =
      (h.readAs shift).map fun entry => (entry, start + h.bytes.length) := by
  have hsize : start + h.bytes.length ≤ b.size := by
    refine hh.le_size (List.ne_nil_of_length_pos ?_)
    rw [h.length_bytes, fixedHeaderSize]
    omega
  rw [h.length_bytes] at hsize ⊢
  simp only [Header.bytes, Bytes.holds_append, List.length_append, h.length_flatMap_numbers] at hh
  obtain ⟨⟨⟨hnumbers, hname⟩, hextra⟩, hcomment⟩ := hh
  have hfield := Number.field?_of_holds hnumbers h.map_width_numbers
  have hmark : Bytes.u32? b start = some 0x02014b50 := hfield 0 rfl
  have hflags : Bytes.u16? b (start + 8) = some h.flags.toNat := hfield 3 rfl
  have hmethod : Bytes.u16? b (start + 10) = some h.method.toNat := hfield 4 rfl
  have hcrc : Bytes.u32? b (start + 16) = some h.crc.toNat := hfield 7 rfl
  have hcompressed : Bytes.u32? b (start + 20) = some h.compressedSize.toNat :=
    hfield 8 rfl
  have hdeclared : Bytes.u32? b (start + 24) = some h.size.toNat := hfield 9 rfl
  have hnameLength : Bytes.u16? b (start + 28) = some h.name.length := by
    rw [← Number.toNat_toUInt16 h.name_lt]
    exact hfield 10 rfl
  have hextraLength : Bytes.u16? b (start + 30) = some h.extra.length := by
    rw [← Number.toNat_toUInt16 h.extra_lt]
    exact hfield 11 rfl
  have hcommentLength : Bytes.u16? b (start + 32) = some h.comment.length := by
    rw [← Number.toNat_toUInt16 h.comment_lt]
    exact hfield 12 rfl
  have hoffset : Bytes.u32? b (start + 42) = some h.offset.toNat := hfield 16 rfl
  have hname' := slice?_of_holds hname (by omega)
  have hextra' := slice?_of_holds hextra (by omega)
  have hcomment' := slice?_of_holds hcomment (by omega)
  simp only [← Nat.add_assoc] at hname' hextra' hcomment'
  simp only [readEntry, hmark, hflags, hmethod, hcrc, hcompressed, hdeclared, hnameLength,
    hextraLength, hcommentLength, hoffset, hname', hextra', hcomment', Option.bind_eq_bind,
    Option.bind_some, Option.pure_def, ne_eq, not_true_eq_false, if_false]
  simp only [Header.readAs, Header.plainEntry, ← Nat.add_assoc]
  cases readExtra h.extra.toByteArray 0 _ with
  | error fault => rfl
  | ok entry =>
      dsimp only
      split_ifs <;> rfl

/-- The headers, one after the other. -/
def directory (headers : List Header) : List UInt8 := headers.flatMap Header.bytes

theorem readEntries_of_holds {headers : List Header} {entries : List Entry}
    (hread : List.Forall₂ (fun h entry => h.readAs shift = .ok entry) headers entries)
    (done : List Entry) (hh : Bytes.Holds b start (directory headers)) :
    readEntries b shift done start headers.length = .ok (done.reverse ++ entries) := by
  induction hread generalizing start done with
  | nil => simp [readEntries]
  | @cons h entry headers entries hentry hrest ih =>
      rw [directory, List.flatMap_cons, Bytes.holds_append] at hh
      have hfirst : readEntry b shift start = .ok (entry, start + h.bytes.length) := by
        rw [readEntry_of_holds hh.1, hentry]
        rfl
      simp only [List.length_cons, readEntries, hfirst]
      rw [ih (entry :: done) hh.2, List.reverse_cons, List.append_assoc, List.singleton_append]

end reading

section closing

/-- The numbers of the record that ends an archive. -/
def endNumbers (count size offset : ℕ) (comment : List UInt8) : List Number := [
  .long endRecordMark.toUInt32, .word 0, .word 0, .word count.toUInt16, .word count.toUInt16,
  .long size.toUInt32, .long offset.toUInt32, .ofLength comment]

def endRecord (count size offset : ℕ) (comment : List UInt8) : List UInt8 :=
  (endNumbers count size offset comment).flatMap Number.bytes ++ comment

theorem map_width_endNumbers (count size offset : ℕ) (comment : List UInt8) :
    (endNumbers count size offset comment).map Number.width = [4, 2, 2, 2, 2, 4, 4, 2] := rfl

theorem length_flatMap_endNumbers (count size offset : ℕ) (comment : List UInt8) :
    ((endNumbers count size offset comment).flatMap Number.bytes).length = endRecordSize := by
  simp only [List.length_flatMap, Number.length_bytes, map_width_endNumbers]
  rfl

theorem length_endRecord (count size offset : ℕ) (comment : List UInt8) :
    (endRecord count size offset comment).length = endRecordSize + comment.length := by
  rw [endRecord, List.length_append, length_flatMap_endNumbers]

variable {b : ByteArray} {position count size offset shift : ℕ} {comment : List UInt8}

/-- The last mark in reach is found if none stands behind it. -/
theorem lastMark?_eq_some {mark lowest span k : ℕ} (hmark : Bytes.u32? b k = some mark)
    (hlowest : lowest ≤ k) (hspan : k < lowest + span)
    (hlast : ∀ j < lowest + span, k < j → Bytes.u32? b j ≠ some mark) :
    Bytes.lastMark? b mark lowest span = some k := by
  induction span with
  | zero => omega
  | succ span ih =>
      rw [Bytes.lastMark?]
      by_cases hk : k = lowest + span
      · rw [← hk, if_pos hmark]
      · have hother := hlast (lowest + span) (by omega) (by omega)
        rw [if_neg hother]
        exact ih (by omega) fun j hj => hlast j (hj.trans (Nat.lt_succ_self _))

/-- The record is read where it stands, if it ends the bytes and its mark is the last one. -/
theorem readEndRecord_of_holds (hcount : count < 2 ^ 16) (hsize : size < 2 ^ 32)
    (hoffset : offset < 2 ^ 32) (hcomment : comment.length < 2 ^ 16)
    (hend : b.size = position + endRecordSize + comment.length)
    (hlast : ∀ k ≤ b.size - endRecordSize, position < k →
      Bytes.u32? b k ≠ some endRecordMark)
    (h : Bytes.Holds b position (endRecord count size offset comment)) :
    readEndRecord b = .ok ⟨position, 0, 0, count, count, size, offset, comment.length⟩ := by
  rw [endRecord, Bytes.holds_append, length_flatMap_endNumbers] at h
  obtain ⟨hnumbers, htext⟩ := h
  have hfield := Number.field?_of_holds hnumbers (map_width_endNumbers ..)
  have hmark : Bytes.u32? b position = some endRecordMark := hfield 0 rfl
  have hdisk : Bytes.u16? b (position + 4) = some 0 := hfield 1 rfl
  have hdirectoryDisk : Bytes.u16? b (position + 6) = some 0 := hfield 2 rfl
  have hcount' : Bytes.u16? b (position + 8) = some count := by
    rw [← Number.toNat_toUInt16 hcount]
    exact hfield 3 rfl
  have htotal : Bytes.u16? b (position + 10) = some count := by
    rw [← Number.toNat_toUInt16 hcount]
    exact hfield 4 rfl
  have hsize' : Bytes.u32? b (position + 12) = some size := by
    rw [← Number.toNat_toUInt32 hsize]
    exact hfield 5 rfl
  have hoffset' : Bytes.u32? b (position + 16) = some offset := by
    rw [← Number.toNat_toUInt32 hoffset]
    exact hfield 6 rfl
  have hlength : Bytes.u16? b (position + 20) = some comment.length := by
    rw [← Number.toNat_toUInt16 hcomment]
    exact hfield 7 rfl
  have htext' := slice?_of_holds htext hend.ge
  simp only [endRecordSize] at hend hlast htext'
  have hfound : Bytes.lastMark? b endRecordMark (b.size - 22 - longestComment)
      (b.size - 22 + 1 - (b.size - 22 - longestComment)) = some position := by
    refine lastMark?_eq_some hmark ?_ ?_ fun k hk => hlast k ?_ <;>
      simp only [longestComment] at * <;> omega
  have hlong : ¬ b.size < 22 := by omega
  simp only [readEndRecord, endRecordSize, hlong, if_false, hfound, hdisk, hdirectoryDisk, hcount',
    htotal, hsize', hoffset', hlength, htext', Option.bind_eq_bind, Option.bind_some,
    Option.pure_def]

theorem readLocator?_eq_none
    (hend : b.size = position + endRecordSize + comment.length)
    (hnarrow : 20 ≤ position → Bytes.u32? b (position - 20) ≠ some wideLocatorMark) :
    readLocator? b comment.length = none := by
  unfold readLocator?
  by_cases hroom : b.size < 20 + endRecordSize + comment.length
  · rw [if_pos hroom]
  · have hstart : b.size - (20 + endRecordSize + comment.length) = position - 20 := by omega
    have hmark := hnarrow (by omega)
    rw [if_neg hroom, hstart]
    simp only [Option.bind_eq_bind, Option.bind_eq_none_iff]
    intro mark hword disk _ place _
    refine if_neg ?_
    rintro rfl
    exact hmark hword

/-- The bytes are something in front, a directory whose offsets are to be shifted, and the record
that ends the archive. No mark behind that record passes for another one, and no mark in front of it
leads to a wide one. -/
structure IsArchive (b : ByteArray) (front : List UInt8) (shift : ℕ) (headers : List Header)
    (comment : List UInt8) : Prop where
  bytes : b = (front ++ (directory headers ++ endRecord headers.length (directory headers).length
    (front.length - shift) comment)).toByteArray
  shift_le : shift ≤ front.length
  offset_lt : front.length - shift < 2 ^ 32
  directory_lt : (directory headers).length < 2 ^ 32
  count_lt : headers.length < 2 ^ 16
  comment_lt : comment.length < 2 ^ 16
  isLast : ∀ k ≤ b.size - endRecordSize, front.length + (directory headers).length < k →
    Bytes.u32? b k ≠ some endRecordMark
  isNarrow : 20 ≤ front.length + (directory headers).length →
    Bytes.u32? b (front.length + (directory headers).length - 20) ≠ some wideLocatorMark

namespace IsArchive

variable {front : List UInt8} {headers : List Header} {entries : List Entry}

theorem size_eq (h : IsArchive b front shift headers comment) :
    b.size = front.length + (directory headers).length + endRecordSize + comment.length := by
  rw [h.bytes, List.size_toByteArray, List.length_append, List.length_append, length_endRecord]
  omega

theorem holds_front (h : IsArchive b front shift headers comment) : Bytes.Holds b 0 front := by
  rw [h.bytes]
  exact Bytes.holds_toByteArray [] front _

theorem holds_directory (h : IsArchive b front shift headers comment) :
    Bytes.Holds b front.length (directory headers) := by
  rw [h.bytes]
  exact Bytes.holds_toByteArray front (directory headers) _

theorem holds_endRecord (h : IsArchive b front shift headers comment) :
    Bytes.Holds b (front.length + (directory headers).length)
      (endRecord headers.length (directory headers).length (front.length - shift) comment) := by
  have hend := Bytes.holds_toByteArray (front ++ directory headers)
    (endRecord headers.length (directory headers).length (front.length - shift) comment) []
  rwa [List.append_nil, List.append_assoc, ← h.bytes, List.length_append] at hend

/-- The directory begins where the front ends, whatever is prepended to the archive. -/
theorem extent_eq (h : IsArchive b front shift headers comment) :
    extent b ⟨front.length + (directory headers).length, 0, 0, headers.length, headers.length,
        (directory headers).length, front.length - shift, comment.length⟩ =
      .ok ⟨front.length, headers.length, shift⟩ := by
  have hshift := h.shift_le
  have hlocator := readLocator?_eq_none h.size_eq h.isNarrow
  have hroom : ¬ front.length + (directory headers).length <
      (directory headers).length + (front.length - shift) := by omega
  have hgap : front.length + (directory headers).length - (directory headers).length
      - (front.length - shift) = shift := by omega
  have hstart : front.length - shift + shift = front.length := Nat.sub_add_cancel hshift
  simp only [extent, bne_self_eq_false, Bool.and_false, Bool.false_eq_true, if_false, hlocator,
    EndRecord.extent, hroom, hgap, hstart]

/-- An archive opens with the entries of its headers. -/
theorem open_eq (h : IsArchive b front shift headers comment)
    (hread : List.Forall₂ (fun h entry => h.readAs shift = .ok entry) headers entries) :
    Archive.open b = .ok ⟨b, entries⟩ := by
  have hrecord := readEndRecord_of_holds h.count_lt h.directory_lt h.offset_lt h.comment_lt
    h.size_eq h.isLast h.holds_endRecord
  have hentries := readEntries_of_holds hread [] h.holds_directory
  simp only [Archive.open, bind, Except.bind, pure, Except.pure, hrecord, h.extent_eq, hentries,
    List.reverse_nil, List.nil_append]

/-- Without a comment there is no room for a mark behind the record. -/
theorem of_uncommented (hbytes : b = (front ++ (directory headers ++
      endRecord headers.length (directory headers).length front.length [])).toByteArray)
    (hfront : front.length < 2 ^ 32) (hdirectory : (directory headers).length < 2 ^ 32)
    (hcount : headers.length < 2 ^ 16)
    (hnarrow : Bytes.u32? b (front.length + (directory headers).length - 20) ≠
      some wideLocatorMark) : IsArchive b front 0 headers [] := by
  refine ⟨hbytes, Nat.zero_le _, hfront, hdirectory, hcount, by decide, ?_, fun _ => hnarrow⟩
  intro k hk hbehind
  have hsize : b.size = front.length + ((directory headers).length + endRecordSize) := by
    rw [hbytes, List.size_toByteArray, List.length_append, List.length_append, length_endRecord,
      List.length_nil, Nat.add_zero]
  omega

end IsArchive

end closing

end VendorScreen.Zip
