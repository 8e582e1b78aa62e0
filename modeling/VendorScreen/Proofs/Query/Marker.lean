import VendorScreen.Proofs.Query.SizeLimit
import VendorScreen.Proofs.Zip.Scanning

namespace VendorScreen

/-!
# Markers

An archive with a marker is never flagged. The marker is looked up by the beginning of its name, and
the lookup opens the header in front of the data of each entry on its way. An entry whose header
cannot be read is passed over in silence, so a marker that is listed can be missed. Opening the next
entry ends in an error on such an entry instead.
-/

namespace Zip

/-- The name of the entry begins with `stem`. -/
def Entry.IsNamed (stem : String) (entry : Entry) : Prop :=
  stem.toList <+: entry.name.toList

/-- The first name in the directory that begins with `stem`. -/
def Archive.firstListed? (a : Archive) (stem : String) : Option String :=
  (a.entries.map Entry.name).find? fun name => stem.toList.isPrefixOf name.toList

section lookup

variable {b : ByteArray} {a : Archive} {stem name : String} {entry : Entry} {k : ℕ}

/-- Of a local header, only its mark counts and that it is not cut short. -/
theorem hasLocalHeader_iff : HasLocalHeader b entry ↔
    Bytes.u32? b entry.headerOffset = some 0x04034b50 ∧ entry.headerOffset + 30 ≤ b.size := by
  constructor
  · rintro ⟨start, hstart⟩
    unfold dataStart at hstart
    cases hmark : Bytes.u32? b entry.headerOffset with
    | none => simp [hmark] at hstart
    | some mark =>
        by_cases hvalid : mark = 0x04034b50
        · subst hvalid
          cases hname : Bytes.u16? b (entry.headerOffset + 26) with
          | none => simp [hmark, hname] at hstart
          | some nameLength =>
              cases hextra : Bytes.u16? b (entry.headerOffset + 28) with
              | none => simp [hmark, hname, hextra] at hstart
              | some extraLength =>
                  have hroom := Bytes.le_size_of_field? two_pos hextra
                  exact ⟨rfl, by omega⟩
        · simp [hmark, hvalid] at hstart
  · rintro ⟨hmark, hroom⟩
    obtain ⟨nameLength, hname⟩ := Bytes.exists_field?_of_le
      (show entry.headerOffset + 26 + 2 ≤ b.size by omega)
    obtain ⟨extraLength, hextra⟩ := Bytes.exists_field?_of_le
      (show entry.headerOffset + 28 + 2 ≤ b.size by omega)
    refine ⟨entry.headerOffset + 30 + nameLength + extraLength, ?_⟩
    simp only [dataStart, hmark, Bytes.u16?, hname, hextra]
    rfl

theorem Archive.firstListed?_eq_some_iff : a.firstListed? stem = some name ↔
    ∃ k entry, IsEarliest (Entry.IsNamed stem) a.entries k entry ∧ entry.name = name := by
  simp only [firstListed?, List.find?_map, Option.map_eq_some_iff, find?_eq_some_iff_isEarliest,
    Function.comp_apply, List.isPrefixOf_iff_prefix]
  constructor
  · rintro ⟨entry, ⟨k, h⟩, hname⟩
    exact ⟨k, entry, h, hname⟩
  · rintro ⟨k, entry, h, hname⟩
    exact ⟨entry, ⟨k, h⟩, hname⟩

theorem Archive.firstListed?_eq_none_iff : a.firstListed? stem = none ↔
    ∀ entry ∈ a.entries, ¬ entry.IsNamed stem := by
  simp only [firstListed?, List.find?_map, Option.map_eq_none_iff, List.find?_eq_none,
    Function.comp_apply, List.isPrefixOf_iff_prefix, Entry.IsNamed]

theorem isEarliest_isFoundBy (hfirst : IsEarliest (Entry.IsNamed stem) a.entries k entry)
    (hheader : HasLocalHeader b entry) : IsEarliest (IsFoundBy b stem) a.entries k entry :=
  ⟨hfirst.1, ⟨hheader, hfirst.2.1⟩, fun j hj other hother hfound =>
    hfirst.2.2 j hj other hother hfound.2⟩

theorem Archive.findName?_eq_firstListed?_iff (a : Archive) (stem : String) :
    a.findName? stem = a.firstListed? stem ↔
      ∀ k entry, IsEarliest (Entry.IsNamed stem) a.entries k entry →
        HasLocalHeader a.bytes entry ∨ ∃ k' entry',
          IsEarliest (IsFoundBy a.bytes stem) a.entries k' entry' ∧ entry'.name = entry.name := by
  constructor
  · intro h k entry hfirst
    have hlisted := firstListed?_eq_some_iff.mpr ⟨k, entry, hfirst, rfl⟩
    rw [← h] at hlisted
    exact .inr ((a.findName?_eq_some_iff stem entry.name).mp hlisted)
  · intro h
    -- The lookup finds no more than is listed, so without a listed name there is nothing to miss.
    rcases IsEarliest.exists_or_forall_not (Entry.IsNamed stem) a.entries with
      ⟨k, entry, hfirst⟩ | hnone
    · rw [firstListed?_eq_some_iff.mpr ⟨k, entry, hfirst, rfl⟩, a.findName?_eq_some_iff]
      rcases h k entry hfirst with hheader | hsame
      · exact ⟨k, entry, isEarliest_isFoundBy hfirst hheader, rfl⟩
      · exact hsame
    · rw [firstListed?_eq_none_iff.mpr hnone, a.findName?_eq_none_iff]
      intro entry hentry hfound
      exact hnone entry hentry hfound.2

end lookup

/-- However a scanner has been used before, its lookup gives the name of the first entry that has
such a name and a readable local header, and nothing if there is none. All that makes a header
readable is its mark and room for its fixed part. So the first name in the directory is given unless
the header of its entry cannot be read and no entry of the same name is found first. -/
theorem lookup_finds_first_readable (b : ByteArray) (a : Archive) (stem : String)
    (hopen : Archive.open b = .ok a) :
    (∀ s : Scanner, s.walk.archive = a → (s.serve (.find stem)).1 = .name (a.findName? stem)) ∧
    (∀ name, a.findName? stem = some name ↔
      ∃ k entry, IsEarliest (IsFoundBy b stem) a.entries k entry ∧ entry.name = name) ∧
    (a.findName? stem = none ↔ ∀ entry ∈ a.entries, ¬ IsFoundBy b stem entry) ∧
    (∀ entry, IsFoundBy b stem entry ↔ entry.IsNamed stem ∧
      Bytes.u32? b entry.headerOffset = some 0x04034b50 ∧ entry.headerOffset + 30 ≤ b.size) ∧
    (a.findName? stem = a.firstListed? stem ↔
      ∀ k entry, IsEarliest (Entry.IsNamed stem) a.entries k entry →
        HasLocalHeader b entry ∨ ∃ k' entry',
          IsEarliest (IsFoundBy b stem) a.entries k' entry' ∧ entry'.name = entry.name) := by
  obtain rfl := Archive.bytes_of_open hopen
  refine ⟨?_, a.findName?_eq_some_iff stem, a.findName?_eq_none_iff stem, ?_,
    a.findName?_eq_firstListed?_iff stem⟩
  · rintro s rfl
    exact congrArg Scanner.Answer.name (Reader.find_fst s.reader stem _)
  · intro entry
    rw [IsFoundBy, hasLocalHeader_iff, and_comm]
    rfl

end Zip

namespace Inspector

/-- The bytes of `firebase-a`. -/
def markerName : List UInt8 := [0x66, 0x69, 0x72, 0x65, 0x62, 0x61, 0x73, 0x65, 0x2d, 0x61]

/-- A class container above the limit, and a marker whose local header is said to stand in the
middle of another one. -/
def headlessHeaders : List Zip.Header :=
  [emptyHeader 0 15000001 0 containerName length_containerName_lt,
    emptyHeader 0 0 1 markerName (by decide)]

def headlessArchive : Zip.Archive :=
  ⟨containersArchive headlessHeaders, headlessHeaders.map Zip.Header.plainEntry⟩

theorem open_headlessArchive : Zip.Archive.open headlessArchive.bytes = .ok headlessArchive := by
  have harchive : Zip.IsArchive headlessArchive.bytes containersFront 0 headlessHeaders [] := by
    apply Zip.IsArchive.of_uncommented (containersArchive_eq headlessHeaders) <;> decide +kernel
  apply harchive.open_eq
  decide +kernel

/-- The first name is given where the container is looked up, and not where the marker is. -/
theorem lookup_finds_first_readable_headless :
    Zip.Archive.open headlessArchive.bytes = .ok headlessArchive ∧
    headlessArchive.findName? "classes" = headlessArchive.firstListed? "classes" ∧
    ∃ k entry, IsEarliest (Zip.Entry.IsNamed neutralLibraryMarker) headlessArchive.entries k entry ∧
      ¬ Zip.HasLocalHeader headlessArchive.bytes entry := by
  obtain ⟨-, -, -, -, hcontainer⟩ := Zip.lookup_finds_first_readable headlessArchive.bytes
    headlessArchive "classes" open_headlessArchive
  obtain ⟨-, -, -, -, hmarker⟩ := Zip.lookup_finds_first_readable headlessArchive.bytes
    headlessArchive neutralLibraryMarker open_headlessArchive
  refine ⟨open_headlessArchive, hcontainer.mpr ?_, ?_⟩
  · intro k entry hfirst
    have hnamed : IsEarliest (Zip.Entry.IsNamed "classes") headlessArchive.entries 0
        (headlessArchive.entries.head (by decide)) :=
      IsEarliest.zero_iff.mpr ⟨rfl, by unfold Zip.Entry.IsNamed; decide +kernel⟩
    obtain ⟨-, rfl⟩ := hfirst.unique hnamed
    exact .inl ⟨41, by decide +kernel⟩
  · have hmissed : headlessArchive.findName? neutralLibraryMarker ≠
        headlessArchive.firstListed? neutralLibraryMarker := by
      decide +kernel
    have h := hmarker.not.mp hmissed
    simp only [not_forall, not_or] at h
    obtain ⟨k, entry, hfirst, hheader, -⟩ := h
    exact ⟨k, entry, hfirst, hheader⟩

/-- The directory lists a marker, the lookup does not find it, and the archive is flagged for the
size of its class container. -/
theorem headless_marker_missed :
    Zip.Archive.open headlessArchive.bytes = .ok headlessArchive ∧
    headlessArchive.firstListed? neutralLibraryMarker = some "firebase-a" ∧
    headlessArchive.findName? neutralLibraryMarker = none ∧
    (builtin.inspect .never headlessArchive.bytes).outcome =
      .ok (.oversizedClassContainer "classes.dex" 15000001) :=
  ⟨open_headlessArchive, by decide +kernel, by decide +kernel, by decide +kernel⟩

end Inspector

end VendorScreen
