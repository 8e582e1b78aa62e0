import VendorScreen.Proofs.Zip.Entries
import VendorScreen.Zip.Scanner

namespace VendorScreen.Zip

/-!
# Answers of scanners

The reader of a scanner is moved before anything is read, so no answer depends on where it stands.
What a scanner answers is settled by its archive, the request, and how many entries have been asked
for before.
-/

namespace Reader

/-- The reader comes to the data wherever it stood. -/
theorem toData_eq (r : Reader) (entry : Entry) :
    r.toData entry = (dataStart r.bytes entry).map r.movedTo := by
  unfold toData dataStart field? Bytes.u32? Bytes.u16?
  simp only [movedTo, movedBy]
  cases Bytes.field? r.bytes entry.headerOffset 4 with
  | none => rfl
  | some mark =>
      simp only [Option.map_some]
      split
      · rfl
      · cases Bytes.field? r.bytes (entry.headerOffset + 26) 2 with
        | none => simp [Except.map]
        | some nameLength =>
            cases hextra : Bytes.field? r.bytes (entry.headerOffset + 28) 2 <;>
              simp [hextra, Except.map, movedTo, Nat.add_assoc]

theorem openEntry_fst (r : Reader) (entry : Entry) :
    (r.openEntry entry).1 = entry.open r.bytes := by
  unfold openEntry Entry.open
  rw [toData_eq]
  cases entry.isEncrypted with
  | true => rfl
  | false =>
      cases dataStart r.bytes entry with
      | error fault => rfl
      | ok start =>
          cases Method.ofNumber? entry.method with
          | none => rfl
          | some method => cases entry.hasEncryptionItem <;> rfl

theorem find_fst (r : Reader) (stem : String) (entries : List Entry) :
    (r.find stem entries).1 = (entries.find? fun entry =>
      (dataStart r.bytes entry).isOk && stem.toList.isPrefixOf entry.name.toList).map Entry.name := by
  induction entries generalizing r with
  | nil => rfl
  | cons entry rest ih =>
      rw [find, toData_eq, List.find?_cons]
      cases dataStart r.bytes entry with
      | error fault => exact ih r
      | ok start =>
          cases hstem : stem.toList.isPrefixOf entry.name.toList with
          | true => simp [Except.map, Except.isOk, Except.toBool]
          | false =>
              have hrest := ih (r.movedTo start)
              simp only [Except.map, Bool.false_eq_true, if_false, Bool.and_false]
              exact hrest

end Reader

namespace Scanner

variable {s : Scanner} {a : Archive} {asked : ℕ} {request : Request} {requests : List Request}

theorem next_of_nil (hrest : s.walk.rest = []) (limit? : Option ℕ) (left : ℕ) :
    s.next limit? left = (.finished, s) := by
  rw [next, hrest]

/-- What opening gives is the same wherever the reader stands. -/
theorem next_of_cons {entry : Entry} {rest : List Entry} (hrest : s.walk.rest = entry :: rest)
    (limit? : Option ℕ) (left : ℕ) : ∃ position, s.next limit? left =
      (.ofOpening s.walk.index limit? (entry.open s.walk.archive.bytes),
        ⟨{ s.walk with index := s.walk.index + 1, rest }, position⟩) := by
  rw [next, hrest]
  exact ⟨_, congrArg (fun opening => (Answer.ofOpening s.walk.index limit? opening, _))
    (s.reader.openEntry_fst entry)⟩

/-- The scanner goes on as its walk does. -/
theorem walk_next (s : Scanner) (limit? : Option ℕ) (left : ℕ) :
    (s.next limit? left).2.walk = (s.walk.next?.map Prod.snd).getD s.walk := by
  unfold Walk.next?
  cases hrest : s.walk.rest with
  | nil => rw [next_of_nil hrest]; rfl
  | cons entry rest =>
      obtain ⟨position, hnext⟩ := next_of_cons hrest limit? left
      rw [hnext]
      rfl

end Scanner

end VendorScreen.Zip
