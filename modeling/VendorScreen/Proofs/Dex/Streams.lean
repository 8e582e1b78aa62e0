import VendorScreen.Proofs.ByteSource
import VendorScreen.Proofs.Dex.Bounds

namespace VendorScreen

/-!
# Containers that are read in pieces

Decoding asks for the next bytes until there are none. All that it makes of the pieces is the bytes
they join to, so the names do not depend on how the reads are split, nor on the size that was
declared. A read that fails leaves no bytes to decode, even behind the last byte of a container.
-/

namespace ByteSource

section drained

variable {source rest : ByteSource} {pieces : List ByteArray} {outcome : Except String Unit}
  {bytes : ByteArray} {size start : ℕ} {failsAt : Option ℕ} {reason : String}

theorem drainOnto_piece (hbytes : bytes.size ≠ 0) (done : ByteArray) :
    (piece bytes rest).drainOnto done = rest.drainOnto (done ++ bytes) := by
  have hempty : ¬ bytes.isEmpty = true := fun hempty => hbytes (beq_iff_eq.mp hempty)
  rw [drainOnto, if_neg hempty]

theorem ReadsAs.drainOnto_eq (h : source.ReadsAs pieces outcome) (done : ByteArray) :
    source.drainOnto done = outcome.map fun _ => done ++ joined pieces := by
  induction h generalizing done with
  | finished => simp [drainOnto, joined, Except.map]
  | failing reason => rfl
  | whole hbytes _ ih => rw [drainOnto_piece hbytes, ih, joined, ByteArray.append_assoc]
  | @part read left rest pieces outcome hread hleft _ ih =>
      have hwhole : (read ++ left).size ≠ 0 := by
        rw [ByteArray.size_append]
        omega
      -- The source still lists what the read left over, behind what it has handed over.
      have hlater := ih (done ++ read)
      rw [drainOnto_piece hleft, ByteArray.append_assoc] at hlater
      rw [drainOnto_piece hwhole, hlater, joined, ByteArray.append_assoc]

theorem ReadsAs.drain_eq (h : source.ReadsAs pieces outcome) :
    source.drain = outcome.map fun _ => joined pieces := by
  rw [drain, h.drainOnto_eq, ByteArray.empty_append]

theorem isSplit_extract_cons {stop last : ℕ} (hstart : start < stop) (hstop : stop ≤ last)
    (hlast : last ≤ bytes.size) (h : IsSplit pieces (bytes.extract stop last)) :
    IsSplit (bytes.extract start stop :: pieces) (bytes.extract start last) := by
  obtain ⟨hpieces, hjoined⟩ := h
  refine ⟨List.forall_mem_cons.mpr ⟨?_, hpieces⟩, ?_⟩
  · rw [ByteArray.size_extract]
    omega
  · rw [joined, hjoined, ByteArray.extract_append_extract]
    congr 1 <;> omega

theorem chunked_of_lt (hsize : 0 < size) (hstart : start < failsAt.getD bytes.size)
    (hlast : failsAt.getD bytes.size ≤ bytes.size) :
    let stop := min (failsAt.getD bytes.size) (start + size)
    chunked bytes size failsAt reason start =
      piece (bytes.extract start stop) (chunked bytes size failsAt reason stop) := by
  rw [chunked.eq_def]
  cases failsAt with
  | none =>
      simp only [Option.getD_none] at hstart
      simp only [reduceCtorEq, if_false, Option.getD_none, Nat.min_comm bytes.size]
      rw [if_neg (by omega)]
  | some position =>
      simp only [Option.getD_some] at hstart hlast
      have hstop : min (min position (start + size)) bytes.size = min position (start + size) := by
        omega
      have hposition : some position ≠ some start := by
        simp only [ne_eq, Option.some.injEq]
        omega
      simp only [Option.getD_some, if_neg hposition, if_pos hstart, hstop]
      rw [if_neg (by omega)]

/-- Pieces of a limited size are a split of the bytes up to the position at which a read fails. -/
theorem exists_readsAs_chunked (bytes : ByteArray) (failsAt : Option ℕ) (reason : String)
    (hsize : 0 < size) (hstart : start ≤ failsAt.getD bytes.size)
    (hlast : failsAt.getD bytes.size ≤ bytes.size) :
    ∃ pieces, (chunked bytes size failsAt reason start).ReadsAs pieces
        (failsAt.elim (.ok ()) fun _ => .error reason) ∧
      IsSplit pieces (bytes.extract start (failsAt.getD bytes.size)) := by
  -- Each piece brings the reads nearer to the last position; what is left up to it decreases.
  induction hleft : failsAt.getD bytes.size - start using Nat.strong_induction_on
    generalizing start with
  | _ left ih =>
      by_cases hnext : start < failsAt.getD bytes.size
      · obtain ⟨pieces, hreads, hsplit⟩ :=
          ih (failsAt.getD bytes.size - min (failsAt.getD bytes.size) (start + size)) (by omega)
            (Nat.min_le_left _ _) rfl
        refine ⟨_, ?_, isSplit_extract_cons (by omega) (Nat.min_le_left _ _) hlast hsplit⟩
        rw [chunked_of_lt hsize hnext hlast]
        apply ReadsAs.whole _ hreads
        rw [ByteArray.size_extract]
        omega
      · obtain rfl : start = failsAt.getD bytes.size := by omega
        refine ⟨[], ?_, by simp, ?_⟩
        · rw [chunked.eq_def]
          cases failsAt with
          | none => simpa using .finished
          | some position => simpa using .failing reason
        · simp [joined]

end drained

end ByteSource

namespace Dex

open ByteSource

section decoding

variable {source : ByteSource} {pieces : List ByteArray} {bytes : ByteArray} {reason : String}

theorem decode_of_readsAs_ok (h : source.ReadsAs pieces (.ok ())) (hsplit : IsSplit pieces bytes)
    (declaredSize : ℕ) : decode source declaredSize = classNames bytes := by
  obtain ⟨-, rfl⟩ := hsplit
  simp only [decode, h.drain_eq, Except.map]

theorem decode_of_readsAs_error (h : source.ReadsAs pieces (.error reason)) (declaredSize : ℕ) :
    decode source declaredSize = .error (.source reason) := by
  simp only [decode, h.drain_eq, Except.map]

/-- No bytes are at fault in the way that a failed read is. -/
theorem classNames_ne_source (bytes : ByteArray) (reason : String) :
    classNames bytes ≠ .error (.source reason) := by
  intro h
  rcases bind_eq_error_iff.mp h with hopen | ⟨c, hopen, hnames⟩
  · have hearly := isEarly_of_open hopen
    cases hearly
  · have hlate := Container.isLate_of_names (Container.tablesFit_of_open hopen).1 hnames
    cases hlate

end decoding

/-- However the bytes of a container are split into reads, and whatever size is declared, decoding
ends as it does for the bytes in memory. A read that fails is all that decoding then reports,
whatever was read before it, and the bytes alone are never at fault in this way. Reads of a limited
size may fail at any position, the end among them. -/
theorem decode_follows_all_reads (bytes : ByteArray) (declaredSize : ℕ) :
    (∀ source pieces, source.ReadsAs pieces (.ok ()) → IsSplit pieces bytes →
      decode source declaredSize = classNames bytes) ∧
    (∀ source pieces reason, source.ReadsAs pieces (.error reason) →
      decode source declaredSize = .error (.source reason)) ∧
    (∀ reason, classNames bytes ≠ .error (.source reason)) ∧
    ∀ size reason, 0 < size →
      decode (.chunked bytes size none reason 0) declaredSize = classNames bytes ∧
      ∀ position ≤ bytes.size,
        decode (.chunked bytes size (some position) reason 0) declaredSize =
          .error (.source reason) := by
  refine ⟨?_, ?_, classNames_ne_source bytes, ?_⟩
  · intro source pieces hreads hsplit
    exact decode_of_readsAs_ok hreads hsplit declaredSize
  · intro source pieces reason hreads
    exact decode_of_readsAs_error hreads declaredSize
  · intro size reason hsize
    constructor
    · obtain ⟨pieces, hreads, hsplit⟩ :=
        exists_readsAs_chunked bytes none reason hsize (Nat.zero_le _) le_rfl
      rw [Option.getD_none, ByteArray.extract_zero_size] at hsplit
      exact decode_of_readsAs_ok hreads hsplit declaredSize
    · intro position hposition
      obtain ⟨pieces, hreads, -⟩ :=
        exists_readsAs_chunked bytes (some position) reason hsize (Nat.zero_le _) hposition
      exact decode_of_readsAs_error hreads declaredSize

/-- A container that is read in two parts, and one whose last read fails behind its last byte. -/
theorem decode_follows_all_reads_sample :
    let b := compactImage 0 3 5 ["La/B;"]
    let source := piece (b.extract 0 1) (piece (b.extract 1 b.size) finished)
    source.ReadsAs [b.extract 0 1, b.extract 1 b.size] (.ok ()) ∧
    IsSplit [b.extract 0 1, b.extract 1 b.size] b ∧
    decode source 0 = .ok ["a.B"] ∧
    decode (.chunked b 16 (some b.size) "stream failed" 0) 0 = .error (.source "stream failed") := by
  intro b source
  have hsize : b.size = 0x9f := by decide +kernel
  have hfirst : (b.extract 0 1).size ≠ 0 := by
    rw [ByteArray.size_extract]
    omega
  have hrest : (b.extract 1 b.size).size ≠ 0 := by
    rw [ByteArray.size_extract]
    omega
  have hreads : source.ReadsAs [b.extract 0 1, b.extract 1 b.size] (.ok ()) := by
    apply ReadsAs.whole hfirst
    apply ReadsAs.whole hrest
    exact .finished
  have hsplit : IsSplit [b.extract 0 1, b.extract 1 b.size] b := by
    have hend : IsSplit [] (b.extract b.size b.size) := ⟨by simp, by simp [joined]⟩
    have hlater : IsSplit [b.extract 1 b.size] (b.extract 1 b.size) := by
      apply isSplit_extract_cons _ le_rfl le_rfl hend
      omega
    have hwhole : IsSplit [b.extract 0 1, b.extract 1 b.size] (b.extract 0 b.size) := by
      apply isSplit_extract_cons zero_lt_one _ le_rfl hlater
      omega
    rwa [ByteArray.extract_zero_size] at hwhole
  obtain ⟨hdecode, -, -, hchunked⟩ := decode_follows_all_reads b 0
  refine ⟨hreads, hsplit, ?_, (hchunked 16 "stream failed" (by decide)).2 b.size le_rfl⟩
  rw [hdecode source _ hreads hsplit]
  decide +kernel

end Dex

end VendorScreen
