import VendorScreen.Zip.Archive

namespace VendorScreen.Zip

/-!
# Scanners

A scanner answers requests about one archive: how many entries there are, whether a name begins in
some way, and what the next entry holds. All of them use one reader, which stands wherever the
request before has left it.
-/

/-- A reader stands somewhere in the bytes, or behind them. -/
structure Reader where
  bytes : ByteArray
  position : Nat

namespace Reader

def movedTo (r : Reader) (position : Nat) : Reader := { r with position }

def movedBy (r : Reader) (count : Nat) : Reader := r.movedTo (r.position + count)

/-- The number in the next `width` bytes, and the reader behind them. -/
def field? (r : Reader) (width : Nat) : Option (Nat × Reader) :=
  (Bytes.field? r.bytes r.position width).map fun number => (number, r.movedBy width)

/-- What is there of the next `count` bytes. -/
def ahead (r : Reader) (count : Nat) : ByteArray :=
  r.bytes.extract r.position (min (r.position + count) r.bytes.size)

/-- Moves to the data of an entry by way of the header in front of them. -/
def toData (r : Reader) (entry : Entry) : Except Fault Reader :=
  match (r.movedTo entry.headerOffset).field? 4 with
  | none => .error .endOfBytes
  | some (mark, r) =>
      if mark ≠ 0x04034b50 then .error (.malformed .localHeader)
      else
        match (r.movedBy 22).field? 2 with
        | none => .error .endOfBytes
        | some (nameLength, r) =>
            match r.field? 2 with
            | none => .error .endOfBytes
            | some (extraLength, r) => .ok (r.movedBy (nameLength + extraLength))

/-- Opens an entry, and leaves the reader in front of its data if there are any to be read. -/
def openEntry (r : Reader) (entry : Entry) : Opening × Reader :=
  if entry.isEncrypted then (.unreadable (.unsupported .password), r)
  else
    match r.toData entry with
    | .error fault => (.unreadable fault, r)
    | .ok r =>
        match Method.ofNumber? entry.method with
        | none => (.unreadable (.unsupported .compressionMethod), r)
        | some method =>
            if entry.hasEncryptionItem then (.abandoned, r)
            else (.opened ⟨entry, method, r.ahead entry.compressedSize⟩, r)

/-- The first of the entries whose name begins with `stem`, passing over those whose data cannot be
moved to. -/
def find (r : Reader) (stem : String) : List Entry → Option String × Reader
  | [] => (none, r)
  | entry :: rest =>
      match r.toData entry with
      | .error _ => r.find stem rest
      | .ok r =>
          if stem.toList.isPrefixOf entry.name.toList then (some entry.name, r)
          else r.find stem rest

end Reader

/-- What is read of an entry: at most so many bytes, or all of them. -/
def OpenEntry.read (e : OpenEntry) : Option Nat → Except String ByteArray
  | some count => e.source.take count
  | none => e.source.drain

/-- An archive gone through as far as the walk says, and where its reader stands. -/
structure Scanner where
  walk : Walk
  position : Nat

namespace Scanner

inductive Request where
  | count
  | find (stem : String)
  /-- Opens the next entry and reads it up to a limit. Decompressing reads ahead, so the position at
  which this leaves the reader is up to the decompressor. -/
  | next (limit? : Option Nat) (left : Nat)
deriving DecidableEq, Repr

inductive Answer where
  | count (number : Nat)
  | name (found : Option String)
  /-- There is no next entry. -/
  | finished
  | unreadable (index : Nat) (fault : Fault)
  | entry (e : OpenEntry) (body : Except String ByteArray)
  | abandoned

def Answer.ofOpening (index : Nat) (limit? : Option Nat) : Opening → Answer
  | .opened e => entry e (e.read limit?)
  | .unreadable fault => unreadable index fault
  | .abandoned => abandoned

def reader (s : Scanner) : Reader := ⟨s.walk.archive.bytes, s.position⟩

/-- Opens and reads the next entry. One that cannot be opened is used up all the same. -/
def next (s : Scanner) (limit? : Option Nat) (left : Nat) : Answer × Scanner :=
  match s.walk.rest with
  | [] => (.finished, s)
  | entry :: rest =>
      let opened := s.reader.openEntry entry
      let position := match opened.1 with
        | .opened _ => left
        | .unreadable _ | .abandoned => opened.2.position
      (.ofOpening s.walk.index limit? opened.1,
        ⟨{ s.walk with index := s.walk.index + 1, rest }, position⟩)

def serve (s : Scanner) : Request → Answer × Scanner
  | .count => (.count s.walk.archive.entries.length, s)
  | .find stem =>
      let found := s.reader.find stem s.walk.archive.entries
      (.name found.1, { s with position := found.2.position })
  | .next limit? left => s.next limit? left

/-- The answers to some requests, one after the other. -/
def answers (s : Scanner) : List Request → List Answer
  | [] => []
  | request :: rest => (s.serve request).1 :: (s.serve request).2.answers rest

end Scanner

/-- A scanner that has answered nothing yet. -/
def Archive.scanner (a : Archive) : Scanner := ⟨a.walk, 0⟩

end VendorScreen.Zip
