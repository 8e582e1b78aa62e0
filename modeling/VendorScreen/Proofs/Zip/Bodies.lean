import VendorScreen.Proofs.ByteSource
import VendorScreen.Proofs.Deflate.Growth
import VendorScreen.Proofs.Zip.Entries

namespace VendorScreen

/-!
# What entries deliver

The body of an entry is made from its compressed data alone: stored data are the body, deflated data
are expanded to it. Only the checksum is compared at the end, so the declared size bounds nothing;
the length of the compressed data does.
-/

namespace Zip

theorem drain_checked_eq_ok_iff (entry : Entry) (bytes body : ByteArray) :
    (checked entry bytes).drain = .ok body ↔
      body = bytes ∧ (Crc32.checksum body).toNat = entry.crc := by
  rw [checked, ByteSource.drain_ofBytes]
  by_cases hintact : (Crc32.checksum bytes).toNat = entry.crc
  · simp only [hintact, if_true, Except.ok.injEq]
    constructor
    · rintro rfl
      exact ⟨rfl, hintact⟩
    · rintro ⟨rfl, -⟩
      rfl
  · simp only [hintact, if_false, reduceCtorEq, false_iff]
    rintro ⟨rfl, hcrc⟩
    exact hintact hcrc

/-- The body that the compressed data of an entry stand for. -/
def OpenEntry.Expands (e : OpenEntry) (body : ByteArray) : Prop :=
  match e.method with
  | .stored => body = e.compressed
  | .deflated =>
      (Deflate.inflate e.compressed).next = .ok () ∧ body = (Deflate.inflate e.compressed).output

/-- An entry is read to its end exactly if its data stand for a body with the recorded checksum. -/
theorem OpenEntry.drain_eq_ok_iff (e : OpenEntry) (body : ByteArray) :
    e.source.drain = .ok body ↔
      e.Expands body ∧ (Crc32.checksum body).toNat = e.entry.crc := by
  unfold source Expands
  cases e.method with
  | stored => exact drain_checked_eq_ok_iff e.entry e.compressed body
  | deflated =>
      dsimp only
      cases (Deflate.inflate e.compressed).next with
      | ok _ => simp [drain_checked_eq_ok_iff]
      | error fault => cases fault <;> simp [ByteSource.drain_ofBytes]

/-- However reading an entry ends, it hands over no more than its compressed data can be worth. -/
theorem OpenEntry.delivered_le (e : OpenEntry) : e.source.delivered ≤ 1032 * e.compressed.size := by
  have hgrowth := Deflate.size_inflate_le e.compressed
  unfold source checked
  cases e.method with
  | stored =>
      rw [ByteSource.delivered_ofBytes]
      omega
  | deflated =>
      dsimp only
      cases (Deflate.inflate e.compressed).next with
      | ok _ =>
          dsimp only
          rw [ByteSource.delivered_ofBytes]
          exact hgrowth
      | error fault =>
          cases fault with
          | incomplete =>
              dsimp only
              rw [ByteSource.delivered_ofBytes]
              exact hgrowth
          | corrupt =>
              dsimp only
              rw [ByteSource.delivered_ofBytes, ByteArray.size_extract]
              omega

/-- The bytes that are there for an entry whose data start at a position. -/
def dataLength (b : ByteArray) (start compressedSize : ℕ) : ℕ :=
  min compressedSize (b.size - start)

/-- The parts of an opened entry. -/
theorem Entry.parts_of_open {b : ByteArray} {entry : Entry} {e : OpenEntry}
    (h : entry.open b = .opened e) :
    e.entry = entry ∧ Method.ofNumber? entry.method = some e.method ∧
      ∃ start, dataStart b entry = .ok start ∧
        e.compressed.size = dataLength b start entry.compressedSize := by
  rcases entry.open_cases b with
    ⟨fault, h'⟩ | ⟨start, method, hstart, hmethod, -, ⟨-, h'⟩ | ⟨-, h'⟩⟩
  · simp [h'] at h
  · simp [h'] at h
  · rw [h', Opening.opened.injEq] at h
    subst h
    refine ⟨rfl, hmethod, start, hstart, ?_⟩
    simp only [ByteArray.size_extract, dataLength]
    omega

/-- The directory's figure for the size of an entry is passed on and has no other use. -/
theorem Entry.open_with_size {b : ByteArray} {entry : Entry} {e : OpenEntry}
    (h : entry.open b = .opened e) (size : ℕ) :
    { entry with size }.open b = .opened { e with entry := { entry with size } } := by
  rcases entry.open_cases b with
    ⟨fault, h'⟩ | ⟨start, method, hstart, hmethod, hplain, ⟨-, h'⟩ | ⟨hitem, h'⟩⟩
  · simp [h'] at h
  · simp [h'] at h
  · rw [h', Opening.opened.injEq] at h
    subst h
    have hstart' : dataStart b { entry with size } = .ok start := hstart
    unfold Entry.open
    rw [hstart']
    simp [hplain, hmethod, hitem]

end Zip

end VendorScreen
