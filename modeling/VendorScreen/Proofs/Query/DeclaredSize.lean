import VendorScreen.Proofs.Zip.Bodies
import VendorScreen.Query

namespace VendorScreen

/-!
# Declared sizes

The size limit is compared with the size that an entry declares, which is a figure in the directory
and nothing else: the body is the same whatever it says. What a decoder is handed is bounded by the
size of the archive, not by the limit.
-/

namespace Zip

/-- The size of a body in terms of the data that are there for it. -/
inductive OpenEntry.HasSize (e : OpenEntry) (body : ByteArray) (length : ℕ) : Prop
  | stored (hmethod : e.entry.method = 0) (hsize : body.size = length)
  | deflated (hmethod : e.entry.method = 8) (hsize : body.size ≤ 1032 * length)

theorem OpenEntry.hasSize_of_expands {b body : ByteArray} {entry : Entry} {e : OpenEntry}
    (hopen : entry.open b = .opened e) (hbody : e.Expands body) :
    e.HasSize body e.compressed.size := by
  obtain ⟨rfl, hmethod, -⟩ := Entry.parts_of_open hopen
  unfold Method.ofNumber? at hmethod
  unfold Expands at hbody
  split at hmethod
  · rename_i hnumber
    rw [← Option.some.inj hmethod] at hbody
    exact .stored hnumber (congrArg ByteArray.size hbody)
  · rename_i hnumber
    rw [← Option.some.inj hmethod] at hbody
    refine .deflated hnumber ?_
    rw [hbody.2]
    exact Deflate.size_inflate_le e.compressed
  · cases hmethod

theorem Walk.exists_of_next? {w w' : Walk} {opening : Opening}
    (h : w.next? = some (opening, w')) :
    ∃ entry ∈ w.rest, entry.open w.archive.bytes = opening := by
  unfold next? at h
  split at h
  · cases h
  · rename_i entry rest hrest
    obtain ⟨hopening, -⟩ := Prod.mk.inj (Option.some.inj h)
    exact ⟨entry, by simp [hrest], hopening⟩

end Zip

namespace Inspector

variable {i : Inspector} {flag : StopFlag} {bytes : ByteArray} {name : String} {size : ℕ}

/-- Nothing is decoded but entries that can be opened and declare a size within the limit. -/
theorem exists_of_decode_mem_inspectFrom {index decodings : ℕ} {entries : List Zip.Entry}
    (h : Call.decode name size ∈ (i.inspectFrom flag bytes index decodings entries).calls) :
    size ≤ i.sizeLimit ∧ ∃ entry ∈ entries, ∃ e,
      entry.name = name ∧ entry.size = size ∧ entry.open bytes = .opened e := by
  induction entries generalizing index decodings with
  | nil => simp [inspectFrom] at h
  | cons entry rest ih =>
      have hlater {index decodings : ℕ}
          (h : Call.decode name size ∈ (i.inspectFrom flag bytes index decodings rest).calls) :
          size ≤ i.sizeLimit ∧ ∃ entry' ∈ entry :: rest, ∃ e,
            entry'.name = name ∧ entry'.size = size ∧ entry'.open bytes = .opened e := by
        obtain ⟨hsize, entry', hmem, hentry'⟩ := ih h
        exact ⟨hsize, entry', List.mem_cons_of_mem entry hmem, hentry'⟩
      rw [inspectFrom] at h
      cases hopen : entry.open bytes with
      | abandoned => simp [hopen] at h
      | unreadable fault =>
          simp only [hopen] at h
          split at h <;> simp at h
      | opened e =>
          simp only [hopen] at h
          split at h
          · simp at h
          split at h
          · split at h
            · simp at h
            · rename_i hwithin
              have hfirst (heq : Call.decode name size = .decode entry.name entry.size) :
                  size ≤ i.sizeLimit ∧ ∃ entry' ∈ entry :: rest, ∃ e,
                    entry'.name = name ∧ entry'.size = size ∧ entry'.open bytes = .opened e := by
                obtain ⟨rfl, rfl⟩ := Call.decode.inj heq
                exact ⟨Nat.not_lt.mp hwithin, entry, List.mem_cons_self, e, rfl, rfl, hopen⟩
              cases hjudged : i.judgeContents e with
              | decided outcome =>
                  simp only [hjudged, List.mem_singleton] at h
                  exact hfirst h
              | passed =>
                  simp only [hjudged, QueryReport.calls_preceded, List.singleton_append,
                    List.mem_cons] at h
                  exact h.elim hfirst hlater
          · exact hlater h

theorem exists_of_decode_mem_inspect
    (h : Call.decode name size ∈ (i.inspect flag bytes).calls) :
    size ≤ i.sizeLimit ∧ ∃ archive entry e, Zip.Archive.open bytes = .ok archive ∧
      entry ∈ archive.entries ∧ entry.name = name ∧ entry.size = size ∧
        entry.open bytes = .opened e := by
  unfold inspect at h
  cases hopen : Zip.Archive.open bytes with
  | error fault => simp [hopen] at h
  | ok archive =>
      simp only [hopen] at h
      cases hmark : archive.findName? neutralLibraryMarker with
      | some entry => simp [hmark] at h
      | none =>
          simp only [hmark] at h
          obtain ⟨hsize, entry, hmem, e, hentry⟩ := exists_of_decode_mem_inspectFrom h
          exact ⟨hsize, archive, entry, e, rfl, hmem, hentry⟩

end Inspector

/-- A body that is read to its end has the recorded checksum and the length that its data give it,
and would be the same with any other declared size. An entry that is handed to the decoder declares
a size within the limit, and delivers no more than the bytes of the archive can be worth. -/
theorem declared_size_is_not_compared :
    (∀ (w w' : Zip.Walk) (e : Zip.OpenEntry) (body : ByteArray),
      w.next? = some (.opened e, w') → e.source.drain = .ok body →
      (Crc32.checksum body).toNat = e.entry.crc ∧
      (∃ start, Zip.dataStart w.archive.bytes e.entry = .ok start ∧
        e.HasSize body (Zip.dataLength w.archive.bytes start e.entry.compressedSize)) ∧
      ∀ size, ∃ e' : Zip.OpenEntry, { e.entry with size }.open w.archive.bytes = .opened e' ∧
        e'.entry.size = size ∧ e'.source.drain = .ok body) ∧
    (∀ (i : Inspector) (flag : StopFlag) (bytes : ByteArray) (name : String) (size : ℕ),
      Call.decode name size ∈ (i.inspect flag bytes).calls →
      size ≤ i.sizeLimit ∧
      ∃ archive entry e, Zip.Archive.open bytes = .ok archive ∧ entry ∈ archive.entries ∧
        entry.name = name ∧ entry.size = size ∧ entry.open bytes = .opened e ∧
          e.source.delivered ≤ 1032 * bytes.size) := by
  constructor
  · intro w w' e body hnext hbody
    obtain ⟨entry, -, hopen⟩ := Zip.Walk.exists_of_next? hnext
    obtain ⟨hexpands, hcrc⟩ := (e.drain_eq_ok_iff body).mp hbody
    have hsize := Zip.OpenEntry.hasSize_of_expands hopen hexpands
    obtain ⟨hentry, -, start, hstart, hlength⟩ := Zip.Entry.parts_of_open hopen
    rw [hlength, ← hentry] at hsize
    rw [← hentry] at hopen hstart
    refine ⟨hcrc, ⟨start, hstart, hsize⟩, ?_⟩
    intro size
    refine ⟨_, Zip.Entry.open_with_size hopen size, rfl, ?_⟩
    exact (Zip.OpenEntry.drain_eq_ok_iff _ body).mpr ⟨hexpands, hcrc⟩
  · intro i flag bytes name size hcall
    obtain ⟨hwithin, archive, entry, e, harchive, hmem, hname, hsize, hopen⟩ :=
      Inspector.exists_of_decode_mem_inspect hcall
    obtain ⟨-, -, start, -, hlength⟩ := Zip.Entry.parts_of_open hopen
    have hshort : e.compressed.size ≤ bytes.size := by
      rw [hlength, Zip.dataLength]
      omega
    exact ⟨hwithin, archive, entry, e, harchive, hmem, hname, hsize, hopen,
      e.delivered_le.trans (Nat.mul_le_mul_left 1032 hshort)⟩

/-- An archive whose only entry is a class container of one byte that declares to have none. -/
def understatedArchive : ByteArray := ⟨#[
  0x50, 0x4b, 0x03, 0x04, 0x14, 0, 0, 0, 0, 0, 0, 0, 0x21, 0, 0x43, 0xbe, 0xb7, 0xe8, 1, 0, 0, 0,
  0, 0, 0, 0, 11, 0, 0, 0, 0x63, 0x6c, 0x61, 0x73, 0x73, 0x65, 0x73, 0x2e, 0x64, 0x65, 0x78, 0x61,
  0x50, 0x4b, 0x01, 0x02, 0x14, 3, 0x14, 0, 0, 0, 0, 0, 0, 0, 0x21, 0, 0x43, 0xbe, 0xb7, 0xe8,
  1, 0, 0, 0, 0, 0, 0, 0, 11, 0, 0, 0, 0, 0, 0, 0, 0, 0, 0, 0, 0, 0, 0, 0, 0, 0,
  0x63, 0x6c, 0x61, 0x73, 0x73, 0x65, 0x73, 0x2e, 0x64, 0x65, 0x78,
  0x50, 0x4b, 0x05, 0x06, 0, 0, 0, 0, 1, 0, 1, 0, 57, 0, 0, 0, 42, 0, 0, 0, 0, 0]⟩

theorem eq_ok_of_toOption {ε α : Type} {x : Except ε α} {a : α} (h : x.toOption = some a) :
    x = .ok a := by
  cases x with
  | error cause => cases h
  | ok value => rw [Option.some.inj h]

/-- The archive as a walk reads it, and as it is judged under the usual limit and under one of no
bytes at all. -/
theorem read_understatedArchive :
    (∃ archive w' e body, Zip.Archive.open understatedArchive = .ok archive ∧
      archive.walk.next? = some (.opened e, w') ∧ e.source.drain = .ok body ∧
        e.entry.size = 0 ∧ body.size = 1) ∧
    Call.decode "classes.dex" 0 ∈ (Inspector.builtin.inspect .never understatedArchive).calls ∧
    { Inspector.builtin with sizeLimit := 0 }.inspect .never understatedArchive =
      ⟨.error (.decode (.tooShort 1)), [.decode "classes.dex" 0]⟩ := by
  -- All runs are evaluated together, because they share the table of the checksum.
  have hruns : ((Zip.Archive.open understatedArchive).toOption.bind fun archive =>
        archive.walk.next?.bind fun next => match next.1 with
          | .opened e => e.source.drain.toOption.map fun body => (e.entry.size, body.size)
          | _ => none) = some (0, 1) ∧
      Call.decode "classes.dex" 0 ∈ (Inspector.builtin.inspect .never understatedArchive).calls ∧
      { Inspector.builtin with sizeLimit := 0 }.inspect .never understatedArchive =
        ⟨.error (.decode (.tooShort 1)), [.decode "classes.dex" 0]⟩ := by
    decide +kernel
  refine ⟨?_, hruns.2⟩
  obtain ⟨archive, hopen, hread⟩ := Option.bind_eq_some_iff.mp hruns.1
  obtain ⟨⟨opening, w'⟩, hnext, hread⟩ := Option.bind_eq_some_iff.mp hread
  cases opening with
  | unreadable fault | abandoned => cases hread
  | opened e =>
      obtain ⟨body, hbody, hsizes⟩ := Option.map_eq_some_iff.mp hread
      obtain ⟨hdeclared, hsize⟩ := Prod.mk.inj hsizes
      exact ⟨archive, w', e, body, eq_ok_of_toOption hopen, hnext, eq_ok_of_toOption hbody,
        hdeclared, hsize⟩

/-- The byte of the understated archive is read to its end, and handed to a decoder. -/
theorem declared_size_is_not_compared_understated :
    ∃ archive w' e body, Zip.Archive.open understatedArchive = .ok archive ∧
      archive.walk.next? = some (.opened e, w') ∧ e.source.drain = .ok body ∧
      ((Crc32.checksum body).toNat = e.entry.crc ∧
        (∃ start, Zip.dataStart archive.walk.archive.bytes e.entry = .ok start ∧
          e.HasSize body (Zip.dataLength archive.walk.archive.bytes start e.entry.compressedSize)) ∧
        ∀ size, ∃ e' : Zip.OpenEntry,
          { e.entry with size }.open archive.walk.archive.bytes = .opened e' ∧
            e'.entry.size = size ∧ e'.source.drain = .ok body) ∧
      Call.decode "classes.dex" 0 ∈ (Inspector.builtin.inspect .never understatedArchive).calls ∧
      0 ≤ Inspector.builtin.sizeLimit := by
  obtain ⟨⟨archive, w', e, body, hopen, hnext, hbody, -⟩, hcall, -⟩ := read_understatedArchive
  exact ⟨archive, w', e, body, hopen, hnext, hbody,
    declared_size_is_not_compared.1 _ w' e body hnext hbody, hcall,
    (declared_size_is_not_compared.2 _ _ _ _ _ hcall).1⟩

/-- Nothing ties the declared size to the body, and a limit of no bytes at all does not keep one
from the decoder. -/
theorem body_exceeds_declared_size :
    (∃ archive w' e body, Zip.Archive.open understatedArchive = .ok archive ∧
      archive.walk.next? = some (.opened e, w') ∧ e.source.drain = .ok body ∧
        body.size ≠ e.entry.size) ∧
    { Inspector.builtin with sizeLimit := 0 }.inspect .never understatedArchive =
      ⟨.error (.decode (.tooShort 1)), [.decode "classes.dex" 0]⟩ := by
  obtain ⟨⟨archive, w', e, body, hopen, hnext, hbody, hdeclared, hsize⟩, -, hjudged⟩ :=
    read_understatedArchive
  exact ⟨⟨archive, w', e, body, hopen, hnext, hbody, by omega⟩, hjudged⟩

end VendorScreen
