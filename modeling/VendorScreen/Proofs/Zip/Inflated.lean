import VendorScreen.Proofs.Deflate.Blocks
import VendorScreen.Proofs.Zip.Bodies
import VendorScreen.Proofs.Zip.Directory

namespace VendorScreen.Zip

/-!
# Deflated entries read back

An entry whose data begin with a stream of blocks is read as what the stream stands for, in whatever
parts it is read, and the checksum decides only how reading ends.
-/

/-- The entry is deflated, can be opened, and has a stream behind the header in front of its data. -/
structure HoldsStream (b : ByteArray) (entry : Entry) (s : Deflate.Stream) : Prop where
  isPlain : entry.isEncrypted = false
  hasNoItem : entry.hasEncryptionItem = false
  isDeflated : entry.method = 8
  layout : ∃ (header : LocalHeader) (data : List UInt8),
    Bytes.Holds b entry.headerOffset (header.bytes ++ data) ∧
      data.length = entry.compressedSize ∧ s.bits <+: Deflate.bitsOf data

/-- The data of the entry are those behind its header. -/
theorem HoldsStream.open_eq {b : ByteArray} {entry : Entry} {s : Deflate.Stream}
    (h : HoldsStream b entry s) : ∃ data : List UInt8,
      entry.open b = .opened ⟨entry, .deflated, data.toByteArray⟩ ∧
        s.bits <+: Deflate.bitsOf data := by
  obtain ⟨header, data, hholds, hlength, hbits⟩ := h.layout
  rw [Bytes.holds_append] at hholds
  have hstart := LocalHeader.dataStart_eq hholds.1
  have hsize : entry.headerOffset + header.bytes.length + data.length ≤ b.size := by
    have hholds := Bytes.holds_append.mpr hholds
    have hnonempty : header.bytes ++ data ≠ [] := by
      refine List.ne_nil_of_length_pos ?_
      rw [List.length_append, header.length_bytes]
      omega
    have hle := hholds.le_size hnonempty
    rwa [List.length_append, ← Nat.add_assoc] at hle
  refine ⟨data, ?_, hbits⟩
  rw [Entry.open, hstart]
  simp only [h.isPlain, h.hasNoItem, h.isDeflated, Bool.false_eq_true, if_false, Method.ofNumber?,
    ← hlength, Nat.min_eq_left hsize, hholds.2.extract_eq]

/-- A deflated entry is read as the expansion of its stream, in any parts, if its checksum is the
recorded one; and with another one recorded, reading it to the end fails. -/
theorem deflated_entry_reads_back (b : ByteArray) (entry : Entry) (s : Deflate.Stream)
    (h : HoldsStream b entry s) :
    ∃ e, entry.open b = .opened e ∧
      ((Crc32.checksum s.expansion.toByteArray).toNat = entry.crc →
        e.source.drain = .ok s.expansion.toByteArray ∧
          ∀ pieces outcome, e.source.ReadsAs pieces outcome ↔
            ByteSource.IsSplit pieces s.expansion.toByteArray ∧ outcome = .ok ()) ∧
      ((Crc32.checksum s.expansion.toByteArray).toNat ≠ entry.crc →
        e.source.drain = .error "Invalid checksum" ∧
          ∀ pieces outcome, e.source.ReadsAs pieces outcome ↔
            ByteSource.IsSplit pieces s.expansion.toByteArray ∧
              outcome = .error "Invalid checksum") := by
  obtain ⟨data, hopen, hbits⟩ := h.open_eq
  have hinflate : Deflate.inflate data.toByteArray = ⟨s.expansion.toByteArray, .ok ()⟩ :=
    s.inflate_eq (by rwa [List.data_toByteArray])
  refine ⟨_, hopen, ?_⟩
  simp only [OpenEntry.source, hinflate, checked]
  constructor
  · intro hcrc
    rw [if_pos hcrc, ByteSource.drain_ofBytes]
    exact ⟨rfl, fun _ _ => ByteSource.readsAs_ofBytes_iff⟩
  · intro hcrc
    rw [if_neg hcrc, ByteSource.drain_ofBytes]
    exact ⟨rfl, fun _ _ => ByteSource.readsAs_ofBytes_iff⟩

section letters

/-- Words for the letter `a`, the end of a block, the length 4 and the distances up to 4. The last of
the runs goes from the one row of lengths into the other. -/
def lettersHead : Deflate.CodeHead where
  codes := ⟨List.replicate 97 0 ++ [1] ++ List.replicate 158 0 ++ [2, 0, 2], [2, 2, 2, 2]⟩
  runLengths := [3, 3, 2] ++ List.replicate 13 0 ++ [2, 0, 2]
  listed := 18
  runs := [.manyZeros 86, .single 1, .manyZeros 127, .manyZeros 9, .single 2, .single 0, .single 2,
    .again 1]
  codes_readable := by decide +kernel
  literals_ge := by decide +kernel
  literals_le := by decide +kernel
  distances_ge := by decide
  distances_le := by decide
  runLengths_complete := by decide +kernel
  length_runLengths := by decide
  runLength_lt := by decide
  listed_ge := by decide
  listed_le := by decide
  unlisted := by decide
  runs_worded := by decide
  runs_eq := by decide +kernel

/-- A block of each kind. Matches in the second and the third reach back into the one before. -/
def lettersStream : Deflate.Stream where
  row := [.stored [true, false, false, true, false] [0x61, 0x62],
    .fixed [.literal 0x63, .copy ⟨7, 3, by decide, by decide, by decide, by decide⟩]]
  last := .coded lettersHead [.copy ⟨4, 4, by decide, by decide, by decide, by decide⟩,
    .literal 0x61, .copy ⟨4, 1, by decide, by decide, by decide, by decide⟩]
  fits := by decide +kernel

def letters : List UInt8 := [
  0x61, 0x62, 0x63, 0x61, 0x62, 0x63, 0x61, 0x62, 0x63, 0x61, 0x61, 0x62, 0x63, 0x61, 0x61, 0x61,
  0x61, 0x61, 0x61]

def lettersData : List UInt8 := [
  0x48, 0x02, 0x00, 0xfd, 0xff, 0x61, 0x62, 0x4a, 0x86, 0x22, 0x40, 0xc5, 0x70, 0x41, 0x03, 0x00,
  0x00, 0x00, 0x20, 0x2c, 0xeb, 0xfb, 0x97, 0x60, 0xd8, 0x9b, 0x00]

def lettersName : List UInt8 := [0x61]

def lettersExtra : List UInt8 := [0x78, 0x78, 0, 0]

theorem length_lettersName_lt : lettersName.length < 2 ^ 16 := by decide

theorem length_lettersExtra_lt : lettersExtra.length < 2 ^ 16 := by decide

theorem length_noComment_lt : ([] : List UInt8).length < 2 ^ 16 := by decide

/-- A header that leaves the checksum and the sizes to the directory. -/
def lettersLocalHeader : LocalHeader where
  needed := 20
  flags := 8
  method := 8
  time := 0
  date := 0x21
  crc := 0
  compressedSize := 0
  size := 0
  name := lettersName
  extra := lettersExtra
  name_lt := length_lettersName_lt
  extra_lt := length_lettersExtra_lt

def lettersHeader (crc : UInt32) : Header where
  flags := 8
  method := 8
  crc := crc
  compressedSize := 27
  size := 19
  offset := 0
  name := lettersName
  extra := lettersExtra
  comment := []
  notes := ⟨0x0314, 20, 0, 0x21, 0, 0, 0⟩
  name_lt := length_lettersName_lt
  extra_lt := length_lettersExtra_lt
  comment_lt := length_noComment_lt

def lettersArchive (crc : UInt32) : ByteArray :=
  ([] ++ ((lettersLocalHeader.bytes ++ lettersData) ++ (directory [lettersHeader crc]
    ++ endRecord 1 (directory [lettersHeader crc]).length 62 []))).toByteArray

def lettersEntry (crc : UInt32) : Entry := (lettersHeader crc).plainEntry

theorem holdsStream_letters (crc : UInt32) :
    HoldsStream (lettersArchive crc) (lettersEntry crc) lettersStream where
  isPlain := by
    have hflags : (lettersHeader crc).flags = 8 := rfl
    rw [lettersEntry, Header.plainEntry, hflags]
    dsimp only
    decide
  hasNoItem := rfl
  isDeflated := rfl
  layout := ⟨lettersLocalHeader, lettersData, Bytes.holds_toByteArray [] _ _, rfl,
    by decide +kernel⟩

end letters

/-- The entry is the one in the directory of an archive. It reads as the letters, and with another
checksum in the directory reading it to the end fails. -/
theorem deflated_entry_reads_back_letters :
    (Archive.open (lettersArchive 0x419a8cfd)).map Archive.entries =
      .ok [lettersEntry 0x419a8cfd] ∧
    HoldsStream (lettersArchive 0x419a8cfd) (lettersEntry 0x419a8cfd) lettersStream ∧
    (∃ e, (lettersEntry 0x419a8cfd).open (lettersArchive 0x419a8cfd) = .opened e ∧
      e.source.drain = .ok letters.toByteArray ∧
      e.source.ReadsAs [letters.toByteArray] (.ok ())) ∧
    HoldsStream (lettersArchive 0) (lettersEntry 0) lettersStream ∧
    ∃ e, (lettersEntry 0).open (lettersArchive 0) = .opened e ∧
      e.source.drain = .error "Invalid checksum" := by
  have hexpansion : lettersStream.expansion = letters := by decide +kernel
  have hcrc : (Crc32.checksum lettersStream.expansion.toByteArray).toNat = 0x419a8cfd := by
    rw [hexpansion]
    decide +kernel
  have hother : (Crc32.checksum lettersStream.expansion.toByteArray).toNat ≠
      (lettersEntry 0).crc := by
    rw [hcrc]
    decide
  refine ⟨by decide +kernel, holdsStream_letters _, ?_, holdsStream_letters _, ?_⟩
  · obtain ⟨e, hopen, hintact, -⟩ :=
      deflated_entry_reads_back _ _ _ (holdsStream_letters 0x419a8cfd)
    obtain ⟨hdrain, hreads⟩ := hintact hcrc
    rw [hexpansion] at hdrain hreads
    have hwhole : ByteSource.IsSplit [letters.toByteArray] letters.toByteArray :=
      ⟨by decide +kernel, ByteArray.append_empty⟩
    exact ⟨e, hopen, hdrain, (hreads _ _).mpr ⟨hwhole, rfl⟩⟩
  · obtain ⟨e, hopen, -, hdamaged⟩ := deflated_entry_reads_back _ _ _ (holdsStream_letters 0)
    exact ⟨e, hopen, (hdamaged hother).1⟩

end VendorScreen.Zip
