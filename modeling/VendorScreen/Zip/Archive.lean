import VendorScreen.ByteSource
import VendorScreen.Crc32
import VendorScreen.Deflate.Inflate
import VendorScreen.Zip.Entry

namespace VendorScreen.Zip

/-!
# Opening archives and entries

An archive is found from its end: the last end record in reach says where the directory should be,
and what stands before the archive shifts every offset in it. Opening an entry reads the header in
front of its data; the data themselves are decompressed only when they are read.
-/

structure Archive where
  bytes : ByteArray
  entries : List Entry

/-- The record that ends an archive. -/
structure EndRecord where
  position : Nat
  disk : Nat
  directoryDisk : Nat
  count : Nat
  total : Nat
  size : Nat
  offset : Nat
  commentLength : Nat
deriving DecidableEq, Repr

def endRecordSize : Nat := 22

def endRecordMark : Nat := 0x06054b50

def wideLocatorMark : Nat := 0x07064b50

def wideEndRecordMark : Nat := 0x06064b50

/-- The longest comment after an end record. -/
def longestComment : Nat := 65535

def readEndRecord (b : ByteArray) : Except Fault EndRecord :=
  if b.size < endRecordSize then .error (.malformed .tooShort)
  else
    let last := b.size - endRecordSize
    let lowest := last - longestComment
    match Bytes.lastMark? b endRecordMark lowest (last + 1 - lowest) with
    | none => .error (.malformed .noEndRecord)
    | some position =>
        let fields : Option EndRecord := do
          let disk ← Bytes.u16? b (position + 4)
          let directoryDisk ← Bytes.u16? b (position + 6)
          let count ← Bytes.u16? b (position + 8)
          let total ← Bytes.u16? b (position + 10)
          let size ← Bytes.u32? b (position + 12)
          let offset ← Bytes.u32? b (position + 16)
          let commentLength ← Bytes.u16? b (position + 20)
          let _ ← slice? b (position + endRecordSize) commentLength
          return { position, disk, directoryDisk, count, total, size, offset, commentLength }
        match fields with
        | none => .error .endOfBytes
        | some record => .ok record

/-- Some field of the record is too small for the archive, so it cannot be relied on. -/
def EndRecord.isTooSmall (r : EndRecord) : Bool :=
  r.disk = 0xffff || r.directoryDisk = 0xffff || r.count = 0xffff || r.total = 0xffff
    || r.size = wideMark || r.offset = wideMark

/-- Where a directory starts, how many entries it lists, and how far all offsets are shifted. -/
structure Extent where
  start : Nat
  count : Nat
  shift : Nat
deriving DecidableEq, Repr

/-- The extent that the end record alone describes. -/
def EndRecord.extent (r : EndRecord) : Except Fault Extent :=
  if r.position < r.size + r.offset then .error (.malformed .directoryExtent)
  else
    let shift := r.position - r.size - r.offset
    .ok ⟨r.offset + shift, r.count, shift⟩

/-- The locator of a wide end record: its disk and its nominal position. -/
def readLocator? (b : ByteArray) (commentLength : Nat) : Option (Nat × Nat) :=
  if b.size < 20 + endRecordSize + commentLength then none
  else do
    let start := b.size - (20 + endRecordSize + commentLength)
    let mark ← Bytes.u32? b start
    let disk ← Bytes.u32? b (start + 4)
    let position ← Bytes.u64? b (start + 8)
    if mark = wideLocatorMark then some (disk, position) else none

/-- The extent that a wide end record describes. It is searched for from its nominal position on,
as far as there is room for it and its locator in front of the end record. -/
def wideExtent (b : ByteArray) (r : EndRecord) (disk position : Nat) : Except Fault Extent :=
  if !r.isTooSmall && r.disk != disk then .error (.unsupported .multipleDisks)
  else if r.position < 60 then .error (.malformed .noRoomForWideEndRecord)
  else
    match Bytes.firstMark? b wideEndRecordMark position (r.position - 60 + 1 - position) with
    | none => .error (.malformed .noWideEndRecord)
    | some found =>
        let fields : Option (Nat × Nat × Nat × Nat) := do
          let disk ← Bytes.u32? b (found + 16)
          let directoryDisk ← Bytes.u32? b (found + 20)
          let total ← Bytes.u64? b (found + 32)
          let offset ← Bytes.u64? b (found + 48)
          return (disk, directoryDisk, total, offset)
        match fields with
        | none => .error .endOfBytes
        | some (disk, directoryDisk, total, offset) =>
            let shift := found - position
            if disk ≠ directoryDisk then .error (.unsupported .multipleDisks)
            else if Nat.pow 2 64 ≤ offset + shift then .error (.malformed .directoryExtent)
            else .ok ⟨offset + shift, total, shift⟩

def extent (b : ByteArray) (r : EndRecord) : Except Fault Extent :=
  if !r.isTooSmall && r.disk != r.directoryDisk then .error (.unsupported .multipleDisks)
  else
    match readLocator? b r.commentLength with
    | none => r.extent
    | some (disk, position) => wideExtent b r disk position

/-- Reads `count` directory headers from `start` on, after those in `done`, the last one first. -/
def readEntries (b : ByteArray) (shift : Nat) (done : List Entry) (start : Nat) :
    Nat → Except Fault (List Entry)
  | 0 => .ok done.reverse
  | count + 1 =>
      match readEntry b shift start with
      | .error fault => .error fault
      | .ok (entry, next) => readEntries b shift (entry :: done) next count

/-- The archive in the bytes. -/
def Archive.open (b : ByteArray) : Except Fault Archive := do
  let record ← readEndRecord b
  let extent ← extent b record
  let entries ← readEntries b extent.shift [] extent.start extent.count
  return ⟨b, entries⟩

/-- Where the data of an entry start. -/
def dataStart (b : ByteArray) (entry : Entry) : Except Fault Nat :=
  let start := entry.headerOffset
  match Bytes.u32? b start with
  | none => .error .endOfBytes
  | some mark =>
      if mark ≠ 0x04034b50 then .error (.malformed .localHeader)
      else
        match Bytes.u16? b (start + 26), Bytes.u16? b (start + 28) with
        | some nameLength, some extraLength => .ok (start + 30 + nameLength + extraLength)
        | _, _ => .error .endOfBytes

inductive Method where
  | stored
  | deflated
deriving DecidableEq, Repr

def Method.ofNumber? : Nat → Option Method
  | 0 => some stored
  | 8 => some deflated
  | _ => none

/-- An entry whose data can be read. -/
structure OpenEntry where
  entry : Entry
  method : Method
  compressed : ByteArray

/-- How opening an entry ends. An item on strong encryption in an entry that is not marked as
encrypted is a case the format leaves without meaning, and opening is given up altogether. -/
inductive Opening where
  | opened (entry : OpenEntry)
  | unreadable (fault : Fault)
  | abandoned

def Entry.open (b : ByteArray) (entry : Entry) : Opening :=
  if entry.isEncrypted then .unreadable (.unsupported .password)
  else
    match dataStart b entry with
    | .error fault => .unreadable fault
    | .ok start =>
        match Method.ofNumber? entry.method with
        | none => .unreadable (.unsupported .compressionMethod)
        | some method =>
            if entry.hasEncryptionItem then .abandoned
            else
              let stop := min (start + entry.compressedSize) b.size
              .opened ⟨entry, method, b.extract start stop⟩

/-- The window of the decompressor, which is filled before any byte of it is handed out. -/
def windowSize : Nat := 32768

/-- The end of a source that delivers `bytes`: the checksum is compared last. -/
def checked (entry : Entry) (bytes : ByteArray) : ByteSource :=
  let isIntact := (Crc32.checksum bytes).toNat = entry.crc
  .ofBytes bytes (if isIntact then none else some "Invalid checksum")

/-- The decompressor is fed pieces of this size, and hands out all it can before it asks for the
next one. -/
def pieceSize : Nat := 32768

/-- How many bytes have been handed out once as many whole pieces as possible, but not more than
`count`, have been decompressed without a contradiction. -/
def handedOut (compressed : ByteArray) : Nat → Nat
  | 0 => 0
  | count + 1 =>
      let expansion := Deflate.inflate (compressed.extract 0 ((count + 1) * pieceSize))
      match expansion.next with
      | .error .corrupt => handedOut compressed count
      | _ => expansion.output.size

/-- What reading the entry gives. A contradiction in compressed data shows as soon as the window it
lies in is filled, so only the windows and the pieces before it are delivered. -/
def OpenEntry.source (e : OpenEntry) : ByteSource :=
  match e.method with
  | .stored => checked e.entry e.compressed
  | .deflated =>
      let expansion := Deflate.inflate e.compressed
      match expansion.next with
      | .ok () => checked e.entry expansion.output
      | .error .incomplete => .ofBytes expansion.output (some "incomplete deflate stream")
      | .error .corrupt =>
          let windows := (expansion.output.size - 1) / windowSize * windowSize
          let pieces := handedOut e.compressed ((e.compressed.size - 1) / pieceSize)
          .ofBytes (expansion.output.extract 0 (max windows pieces)) (some "corrupt deflate stream")

/-- The first entry in directory order whose name begins with `stem` and whose local header can be
read. Nothing is decompressed. -/
def Archive.findName? (a : Archive) (stem : String) : Option String :=
  (a.entries.find? fun entry =>
    (dataStart a.bytes entry).isOk && stem.toList.isPrefixOf entry.name.toList).map Entry.name

/-- A forward pass over the entries of an archive: those to come, and the index of the next. -/
structure Walk where
  archive : Archive
  index : Nat
  rest : List Entry

def Archive.walk (a : Archive) : Walk := ⟨a, 0, a.entries⟩

/-- Opens the next entry. An entry that cannot be opened is used up all the same. -/
def Walk.next? (w : Walk) : Option (Opening × Walk) :=
  match w.rest with
  | [] => none
  | entry :: rest => some (entry.open w.archive.bytes, { w with index := w.index + 1, rest })

end VendorScreen.Zip
