import VendorScreen.Proofs.Earliest
import VendorScreen.Proofs.Steps
import VendorScreen.Zip.Archive

namespace VendorScreen.Zip

/-!
# Opening and finding entries

What opening an entry gives depends on a few of its fields and on the header in front of its data.
The lookup by the beginning of a name passes over entries without a readable header.
-/

/-- The header in front of the data of the entry can be read. -/
def HasLocalHeader (b : ByteArray) (entry : Entry) : Prop := ∃ start, dataStart b entry = .ok start

/-- The entry carries an item on strong encryption and is not marked as encrypted, and nothing else
keeps it from being opened. -/
structure IsTrap (b : ByteArray) (entry : Entry) : Prop where
  isPlain : entry.isEncrypted = false
  hasItem : entry.hasEncryptionItem = true
  hasHeader : HasLocalHeader b entry
  hasMethod : entry.method = 0 ∨ entry.method = 8

theorem Method.ofNumber?_isSome_iff (n : ℕ) : (Method.ofNumber? n).isSome ↔ n = 0 ∨ n = 8 := by
  unfold Method.ofNumber?
  split <;> simp_all

/-- The ways in which opening an entry can end, with what each of them rests on. -/
theorem Entry.open_cases (b : ByteArray) (entry : Entry) :
    (∃ fault, entry.open b = .unreadable fault) ∨
      (∃ start method, dataStart b entry = .ok start ∧ Method.ofNumber? entry.method = some method ∧
        entry.isEncrypted = false ∧
        ((entry.hasEncryptionItem = true ∧ entry.open b = .abandoned) ∨
          (entry.hasEncryptionItem = false ∧ entry.open b = .opened ⟨entry, method,
            b.extract start (min (start + entry.compressedSize) b.size)⟩))) := by
  unfold Entry.open
  cases hplain : entry.isEncrypted with
  | true => exact .inl ⟨_, rfl⟩
  | false =>
      cases hstart : dataStart b entry with
      | error fault => exact .inl ⟨fault, rfl⟩
      | ok start =>
          cases hmethod : Method.ofNumber? entry.method with
          | none => exact .inl ⟨_, rfl⟩
          | some method =>
              refine .inr ⟨start, method, rfl, rfl, rfl, ?_⟩
              cases hitem : entry.hasEncryptionItem with
              | true => exact .inl ⟨rfl, by simp⟩
              | false => exact .inr ⟨rfl, by simp⟩

/-- Opening is given up exactly on traps. -/
theorem Entry.open_eq_abandoned_iff (b : ByteArray) (entry : Entry) :
    entry.open b = .abandoned ↔ IsTrap b entry := by
  rcases entry.open_cases b with ⟨fault, h⟩ | ⟨start, method, hstart, hmethod, hplain, h⟩
  · constructor
    · intro habandoned
      simp [h] at habandoned
    · rintro ⟨hplain, hitem, ⟨start, hstart⟩, hnumber⟩
      obtain ⟨method, hmethod⟩ :=
        Option.isSome_iff_exists.mp ((Method.ofNumber?_isSome_iff _).mpr hnumber)
      simp [Entry.open, hplain, hitem, hstart, hmethod]
  · have hnumber : entry.method = 0 ∨ entry.method = 8 :=
      (Method.ofNumber?_isSome_iff _).mp (by simp [hmethod])
    rcases h with ⟨hitem, h⟩ | ⟨hitem, h⟩
    · exact ⟨fun _ => ⟨hplain, hitem, ⟨start, hstart⟩, hnumber⟩, fun _ => h⟩
    · constructor
      · intro habandoned
        simp [h] at habandoned
      · intro htrap
        simp [htrap.hasItem] at hitem

/-- An opened entry is the one in the directory. -/
theorem Entry.entry_of_open {b : ByteArray} {entry : Entry} {e : OpenEntry}
    (h : entry.open b = .opened e) : e.entry = entry := by
  rcases entry.open_cases b with ⟨fault, h'⟩ | ⟨start, method, -, -, -, ⟨-, h'⟩ | ⟨-, h'⟩⟩
  · simp [h'] at h
  · simp [h'] at h
  · rw [h', Opening.opened.injEq] at h
    rw [← h]

/-- The lookup for `stem` stops at the entry. -/
def IsFoundBy (b : ByteArray) (stem : String) (entry : Entry) : Prop :=
  HasLocalHeader b entry ∧ stem.toList <+: entry.name.toList

theorem isFoundBy_iff (b : ByteArray) (stem : String) (entry : Entry) :
    ((dataStart b entry).isOk && stem.toList.isPrefixOf entry.name.toList) = true ↔
      IsFoundBy b stem entry := by
  rw [Bool.and_eq_true, List.isPrefixOf_iff_prefix, IsFoundBy, HasLocalHeader]
  cases dataStart b entry <;> simp [Except.isOk, Except.toBool]

theorem Archive.findName?_eq_some_iff (a : Archive) (stem name : String) :
    a.findName? stem = some name ↔
      ∃ k entry, IsEarliest (IsFoundBy a.bytes stem) a.entries k entry ∧ entry.name = name := by
  simp only [Archive.findName?, Option.map_eq_some_iff, find?_eq_some_iff_isEarliest, isFoundBy_iff]
  constructor
  · rintro ⟨entry, ⟨k, h⟩, hname⟩
    exact ⟨k, entry, h, hname⟩
  · rintro ⟨k, entry, h, hname⟩
    exact ⟨entry, ⟨k, h⟩, hname⟩

theorem Archive.findName?_eq_none_iff (a : Archive) (stem : String) :
    a.findName? stem = none ↔ ∀ entry ∈ a.entries, ¬ IsFoundBy a.bytes stem entry := by
  simp only [Archive.findName?, Option.map_eq_none_iff, List.find?_eq_none, isFoundBy_iff]

theorem Archive.bytes_of_open {b : ByteArray} {a : Archive} (h : Archive.open b = .ok a) :
    a.bytes = b := by
  unfold Archive.open at h
  obtain ⟨record, -, h⟩ := bind_eq_ok_iff.mp h
  obtain ⟨extent, -, h⟩ := bind_eq_ok_iff.mp h
  obtain ⟨entries, -, h⟩ := bind_eq_ok_iff.mp h
  obtain rfl := Except.ok.inj h
  rfl

end VendorScreen.Zip
