import Mathlib
import VendorScreen.ByteSource

namespace VendorScreen

/-!
# What reads hand over

A reader chooses how much it asks for, and a source how much it gives. However the bytes are split
between the reads, they are the same bytes, and their end or failure shows behind the last of them.
-/

namespace ByteSource

/-- The number of bytes that a reader is handed before the end or a failure. -/
def delivered : ByteSource → ℕ
  | finished | failing _ => 0
  | piece bytes rest => bytes.size + rest.delivered

theorem eq_empty_of_isEmpty {bytes : ByteArray} (h : bytes.isEmpty = true) :
    bytes = ByteArray.empty :=
  ByteArray.size_eq_zero_iff.mp (beq_iff_eq.mp h)

theorem drain_ofBytes (bytes : ByteArray) (failure : Option String) :
    (ofBytes bytes failure).drain = match failure with
      | none => .ok bytes
      | some reason => .error reason := by
  unfold ofBytes drain
  by_cases hempty : bytes.isEmpty = true
  · have hbytes := eq_empty_of_isEmpty hempty
    rw [if_pos hempty, hbytes]
    cases failure <;> rfl
  · rw [if_neg hempty]
    cases failure <;> simp [drainOnto, hempty]

theorem delivered_ofBytes (bytes : ByteArray) (failure : Option String) :
    (ofBytes bytes failure).delivered = bytes.size := by
  unfold ofBytes
  by_cases hempty : bytes.isEmpty = true
  · have hbytes := eq_empty_of_isEmpty hempty
    rw [if_pos hempty, hbytes]
    cases failure <;> rfl
  · rw [if_neg hempty]
    cases failure <;> rfl

section reads

/-- Reads of whatever sizes hand over these pieces, and then the source ends or fails. A read leaves
what it does not take to the next one. -/
inductive ReadsAs : ByteSource → List ByteArray → Except String Unit → Prop
  | finished : ReadsAs finished [] (.ok ())
  | failing (reason : String) : ReadsAs (failing reason) [] (.error reason)
  | whole {bytes : ByteArray} {rest : ByteSource} {pieces : List ByteArray}
      {outcome : Except String Unit} (hbytes : bytes.size ≠ 0) (h : ReadsAs rest pieces outcome) :
      ReadsAs (piece bytes rest) (bytes :: pieces) outcome
  | part {read left : ByteArray} {rest : ByteSource} {pieces : List ByteArray}
      {outcome : Except String Unit} (hread : read.size ≠ 0) (hleft : left.size ≠ 0)
      (h : ReadsAs (piece left rest) pieces outcome) :
      ReadsAs (piece (read ++ left) rest) (read :: pieces) outcome

def joined : List ByteArray → ByteArray
  | [] => ByteArray.empty
  | first :: pieces => first ++ joined pieces

/-- The pieces make up the bytes, and none of them is empty. -/
def IsSplit (pieces : List ByteArray) (bytes : ByteArray) : Prop :=
  (∀ piece ∈ pieces, piece.size ≠ 0) ∧ joined pieces = bytes

/-- All that a source lists. -/
def contents : ByteSource → ByteArray
  | finished | failing _ => ByteArray.empty
  | piece bytes rest => bytes ++ rest.contents

/-- How a source ends. -/
def ending : ByteSource → Except String Unit
  | finished => .ok ()
  | failing reason => .error reason
  | piece _ rest => rest.ending

variable {source rest : ByteSource} {pieces : List ByteArray} {bytes : ByteArray}
  {outcome : Except String Unit} {failure : Option String}

/-- However the reads are split, they hand over the same bytes and end in the same way. -/
theorem ReadsAs.isSplit (h : source.ReadsAs pieces outcome) :
    IsSplit pieces source.contents ∧ outcome = source.ending := by
  induction h with
  | finished => exact ⟨⟨by simp, rfl⟩, rfl⟩
  | failing reason => exact ⟨⟨by simp, rfl⟩, rfl⟩
  | whole hbytes _ ih =>
      obtain ⟨⟨hpieces, hjoined⟩, houtcome⟩ := ih
      exact ⟨⟨List.forall_mem_cons.mpr ⟨hbytes, hpieces⟩, congrArg _ hjoined⟩, houtcome⟩
  | part hread _ _ ih =>
      obtain ⟨⟨hpieces, hjoined⟩, houtcome⟩ := ih
      refine ⟨⟨List.forall_mem_cons.mpr ⟨hread, hpieces⟩, ?_⟩, houtcome⟩
      rw [joined, hjoined, contents, contents, ByteArray.append_assoc]

theorem eq_nil_of_joined (hpieces : ∀ piece ∈ pieces, piece.size ≠ 0)
    (hjoined : (joined pieces).size = 0) : pieces = [] := by
  cases pieces with
  | nil => rfl
  | cons first pieces =>
      have hfirst := hpieces first List.mem_cons_self
      rw [joined, ByteArray.size_append] at hjoined
      omega

/-- A piece may be read in any parts. -/
theorem readsAs_piece (hrest : rest.ReadsAs [] outcome) (hsplit : IsSplit pieces bytes)
    (hbytes : bytes.size ≠ 0) : (piece bytes rest).ReadsAs pieces outcome := by
  obtain ⟨hpieces, rfl⟩ := hsplit
  induction pieces with
  | nil => exact absurd rfl hbytes
  | cons first pieces ih =>
      obtain ⟨hfirst, hlater⟩ := List.forall_mem_cons.mp hpieces
      by_cases hlast : (joined pieces).size = 0
      · obtain rfl := eq_nil_of_joined hlater hlast
        have hwhole : joined [first] = first := ByteArray.append_empty
        rw [hwhole]
        exact .whole hfirst hrest
      · exact .part hfirst hlast (ih hlater hlast)

/-- A source in one piece is read as any split of the bytes, and as nothing else. -/
theorem readsAs_ofBytes_iff : (ofBytes bytes failure).ReadsAs pieces outcome ↔
    IsSplit pieces bytes ∧ outcome = match failure with
      | none => .ok ()
      | some reason => .error reason := by
  unfold ofBytes
  by_cases hempty : bytes.isEmpty = true
  · obtain rfl := eq_empty_of_isEmpty hempty
    rw [if_pos hempty]
    constructor
    · intro h
      cases failure <;> exact h.isSplit
    · rintro ⟨⟨hpieces, hjoined⟩, rfl⟩
      obtain rfl := eq_nil_of_joined hpieces (congrArg ByteArray.size hjoined)
      cases failure with
      | none => exact .finished
      | some reason => exact .failing reason
  · have hbytes : bytes.size ≠ 0 := fun hsize => hempty (beq_iff_eq.mpr hsize)
    rw [if_neg hempty]
    constructor
    · intro h
      cases failure <;> simpa [contents, ending] using h.isSplit
    · rintro ⟨hsplit, rfl⟩
      refine readsAs_piece ?_ hsplit hbytes
      cases failure with
      | none => exact .finished
      | some reason => exact .failing reason

end reads

end ByteSource

end VendorScreen
