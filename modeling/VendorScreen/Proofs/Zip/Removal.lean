import VendorScreen.Proofs.Zip.RoundTrip

namespace VendorScreen.Zip

/-!
# Archives without one of their entries

An entry is taken out of an archive by cutting its header out of the directory. What the others are
read as does not depend on it, as long as their own headers and data stand in front.
-/

/-- The compressed data that are there for an entry. -/
def dataOf (b : ByteArray) (entry : Entry) : Except Fault ByteArray :=
  (dataStart b entry).map fun start =>
    b.extract start (min (start + entry.compressedSize) b.size)

def Entry.movedTo (entry : Entry) (headerOffset : ℕ) : Entry := { entry with headerOffset }

def Opening.movedTo (offset : ℕ) : Opening → Opening
  | opened e => opened { e with entry := e.entry.movedTo offset }
  | unreadable fault => unreadable fault
  | abandoned => abandoned

/-- The two are one entry but for where it stands, with the same data. -/
def IsSameEntry (b b' : ByteArray) (entry entry' : Entry) : Prop :=
  ∃ offset, entry' = entry.movedTo offset ∧ dataOf b' entry' = dataOf b entry

/-- The archive `a'` has the entries of `a`, in order, without the one with index `k`. -/
def Archive.IsWithout (a' a : Archive) (k : ℕ) : Prop :=
  List.Forall₂ (IsSameEntry a.bytes a'.bytes) (a.entries.eraseIdx k) a'.entries

theorem isOk_dataOf (b : ByteArray) (entry : Entry) :
    (dataOf b entry).isOk = (dataStart b entry).isOk := by
  unfold dataOf
  cases dataStart b entry <;> rfl

/-- Opening an entry looks at the archive for nothing but the data. -/
theorem Entry.open_eq_of_dataOf (b : ByteArray) (entry : Entry) :
    entry.open b =
      if entry.isEncrypted then .unreadable (.unsupported .password)
      else
        match dataOf b entry with
        | .error fault => .unreadable fault
        | .ok compressed =>
            match Method.ofNumber? entry.method with
            | none => .unreadable (.unsupported .compressionMethod)
            | some method =>
                if entry.hasEncryptionItem then .abandoned
                else .opened ⟨entry, method, compressed⟩ := by
  unfold Entry.open dataOf
  cases dataStart b entry <;> rfl

namespace IsSameEntry

variable {b b' : ByteArray} {entry entry' : Entry}

theorem name_eq (h : IsSameEntry b b' entry entry') : entry'.name = entry.name := by
  obtain ⟨offset, rfl, -⟩ := h
  rfl

theorem isOk_dataStart (h : IsSameEntry b b' entry entry') :
    (dataStart b' entry').isOk = (dataStart b entry).isOk := by
  obtain ⟨offset, -, hdata⟩ := h
  rw [← isOk_dataOf, ← isOk_dataOf, hdata]

theorem open_eq (h : IsSameEntry b b' entry entry') :
    ∃ offset, entry' = entry.movedTo offset ∧ entry'.open b' = (entry.open b).movedTo offset := by
  obtain ⟨offset, rfl, hdata⟩ := h
  refine ⟨offset, rfl, ?_⟩
  rw [Entry.open_eq_of_dataOf, Entry.open_eq_of_dataOf, hdata]
  have hencrypted : (entry.movedTo offset).isEncrypted = entry.isEncrypted := rfl
  have hmethod : (entry.movedTo offset).method = entry.method := rfl
  have hitem : (entry.movedTo offset).hasEncryptionItem = entry.hasEncryptionItem := rfl
  rw [hencrypted, hmethod, hitem]
  cases entry.isEncrypted with
  | true => rfl
  | false =>
      cases dataOf b entry with
      | error fault => rfl
      | ok compressed =>
          cases Method.ofNumber? entry.method with
          | none => rfl
          | some method => cases entry.hasEncryptionItem <;> rfl

end IsSameEntry

theorem find?_eraseIdx {α : Type} {q : α → Bool} {xs : List α} {k : ℕ} {x : α}
    (hx : xs[k]? = some x) (hq : q x = false) : (xs.eraseIdx k).find? q = xs.find? q := by
  induction xs generalizing k with
  | nil => simp at hx
  | cons y xs ih =>
      cases k with
      | zero =>
          obtain rfl : y = x := by simpa using hx
          rw [List.eraseIdx_cons_zero, List.find?_cons_of_neg (by simp [hq])]
      | succ k =>
          rw [List.eraseIdx_cons_succ, List.find?_cons, List.find?_cons, ih (by simpa using hx)]

/-- The lookup looks at nothing but names, and at the headers of the entries it is for. -/
theorem Archive.findName?_congr {a a' : Archive} {stem : String}
    (h : List.Forall₂ (fun entry entry' => entry'.name = entry.name ∧
      (stem.toList <+: entry.name.toList →
        (dataStart a'.bytes entry').isOk = (dataStart a.bytes entry).isOk)) a.entries a'.entries) :
    a'.findName? stem = a.findName? stem := by
  unfold findName?
  generalize a.entries = entries at h
  generalize a'.entries = entries' at h
  induction h with
  | nil => rfl
  | @cons first first' rest rest' hfirst _ ih =>
      obtain ⟨hname, hok⟩ := hfirst
      have htest : ((dataStart a'.bytes first').isOk &&
          stem.toList.isPrefixOf first'.name.toList) =
          ((dataStart a.bytes first).isOk && stem.toList.isPrefixOf first.name.toList) := by
        rw [hname]
        cases hprefix : stem.toList.isPrefixOf first.name.toList with
        | true => rw [hok (List.isPrefixOf_iff_prefix.mp hprefix)]
        | false => rw [Bool.and_false, Bool.and_false]
      rw [List.find?_cons, List.find?_cons, htest]
      cases (dataStart a.bytes first).isOk && stem.toList.isPrefixOf first.name.toList with
      | true => exact congrArg some hname
      | false => exact ih

/-- The lookup does not notice the loss of an entry that it was not for. -/
theorem Archive.IsWithout.findName?_eq {a a' : Archive} {k : ℕ} {entry : Entry} {stem : String}
    (h : a'.IsWithout a k) (hentry : a.entries[k]? = some entry)
    (hname : ¬ stem.toList <+: entry.name.toList) : a'.findName? stem = a.findName? stem := by
  have hother : ((dataStart a.bytes entry).isOk &&
      stem.toList.isPrefixOf entry.name.toList) = false := by
    rw [← Bool.not_eq_true, isFoundBy_iff]
    exact fun hfound => hname hfound.2
  have hlookup : findName? ⟨a.bytes, a.entries.eraseIdx k⟩ stem = a.findName? stem :=
    congrArg (Option.map Entry.name) (find?_eraseIdx hentry hother)
  rw [← hlookup]
  apply findName?_congr
  exact List.Forall₂.imp (fun _ _ hsame => ⟨hsame.name_eq, fun _ => hsame.isOk_dataStart⟩) h

section written

variable {b b' : ByteArray} {stop : ℕ}

/-- What opening an entry looks at stands before a position. -/
def LiesBefore (b : ByteArray) (stop : ℕ) (entry : Entry) : Prop :=
  entry.headerOffset + 30 ≤ stop ∧
    ∀ start, dataStart b entry = .ok start → start + entry.compressedSize ≤ stop

instance (b : ByteArray) (stop : ℕ) (entry : Entry) : Decidable (LiesBefore b stop entry) :=
  decidable_of_iff (entry.headerOffset + 30 ≤ stop ∧
      ∀ start ∈ (dataStart b entry).toOption, start + entry.compressedSize ≤ stop) <| by
    unfold LiesBefore
    cases dataStart b entry <;> simp [Except.toOption]

theorem field?_congr (h : ∀ k < stop, b'[k]? = b[k]?) {start width : ℕ}
    (hwithin : start + width ≤ stop) :
    Bytes.field? b' start width = Bytes.field? b start width := by
  induction width generalizing start with
  | zero => rfl
  | succ width ih =>
      rw [Bytes.field?_succ, Bytes.field?_succ, h start (by omega), ih (by omega)]

theorem dataStart_congr (h : ∀ k < stop, b'[k]? = b[k]?) {entry : Entry}
    (hwithin : entry.headerOffset + 30 ≤ stop) : dataStart b' entry = dataStart b entry := by
  have hmark : Bytes.u32? b' entry.headerOffset = Bytes.u32? b entry.headerOffset :=
    field?_congr h (by omega)
  have hname : Bytes.u16? b' (entry.headerOffset + 26) = Bytes.u16? b (entry.headerOffset + 26) :=
    field?_congr h (by omega)
  have hextra : Bytes.u16? b' (entry.headerOffset + 28) = Bytes.u16? b (entry.headerOffset + 28) :=
    field?_congr h (by omega)
  simp only [dataStart, hmark, hname, hextra]

theorem dataOf_of_holds {item : Item} {start : ℕ} (h : Bytes.Holds b start item.record) :
    dataOf b (item.entry start) = .ok item.content := by
  rw [dataOf, dataStart_of_holds h]
  exact congrArg Except.ok (content_of_holds h)

/-- An item is listed as the same entry wherever it is written. -/
theorem isSameEntry_of_holds {item : Item} {start start' : ℕ}
    (h : Bytes.Holds b start item.record) (h' : Bytes.Holds b' start' item.record) :
    IsSameEntry b b' (item.entry start) (item.entry start') := by
  refine ⟨start', rfl, ?_⟩
  rw [dataOf_of_holds h, dataOf_of_holds h']

theorem extract_congr (h : ∀ k < stop, b'[k]? = b[k]?) (hsize : stop ≤ b.size)
    (hsize' : stop ≤ b'.size) {start length : ℕ} (hwithin : start + length ≤ stop) :
    b'.extract start (min (start + length) b'.size) =
      b.extract start (min (start + length) b.size) := by
  have hstop : min (start + length) b.size = start + length := by omega
  have hstop' : min (start + length) b'.size = start + length := by omega
  rw [hstop, hstop']
  apply ByteArray.ext_getElem
  · simp only [ByteArray.size_extract]
    omega
  intro k hk hk'
  rw [ByteArray.size_extract] at hk hk'
  have hget := h (start + k) (by omega)
  rw [getElem?_pos b' _ (by omega), getElem?_pos b _ (by omega)] at hget
  simpa [ByteArray.getElem_extract] using hget

theorem isSameEntry_of_liesBefore (h : ∀ k < stop, b'[k]? = b[k]?) (hsize : stop ≤ b.size)
    (hsize' : stop ≤ b'.size) {entry : Entry} (hlies : LiesBefore b stop entry) :
    IsSameEntry b b' entry entry := by
  refine ⟨entry.headerOffset, rfl, ?_⟩
  rw [dataOf, dataOf, dataStart_congr h hlies.1]
  cases hstart : dataStart b entry with
  | error fault => rfl
  | ok start => exact congrArg Except.ok (extract_congr h hsize hsize' (hlies.2 start hstart))

theorem forall₂_eraseIdx {α β : Type} {r : α → β → Prop} {xs : List α} {ys : List β}
    (h : List.Forall₂ r xs ys) (k : ℕ) : List.Forall₂ r (xs.eraseIdx k) (ys.eraseIdx k) := by
  induction h generalizing k with
  | nil => simp
  | cons hfirst hrest ih =>
      cases k with
      | zero => simpa using hrest
      | succ k => simpa using List.Forall₂.cons hfirst (ih k)

variable {front : List UInt8} {shift k : ℕ} {headers : List Header} {comment : List UInt8}
  {entries : List Entry}

/-- An entry that lies in front of two directories is the same in both archives. -/
theorem IsArchive.isSameEntry {headers' : List Header} {entry : Entry}
    (h : IsArchive b front shift headers comment)
    (h' : IsArchive b' front shift headers' comment)
    (hlies : LiesBefore b front.length entry) : IsSameEntry b b' entry entry := by
  have hagree : ∀ j < front.length, b'[j]? = b[j]? := by
    intro j hj
    have hb := h.holds_front.getElem? hj
    have hb' := h'.holds_front.getElem? hj
    rw [Nat.zero_add] at hb hb'
    rw [hb, hb']
  have hsize := h.size_eq
  have hsize' := h'.size_eq
  exact isSameEntry_of_liesBefore hagree (by omega) (by omega) hlies

/-- An archive whose directory lacks one header is without that entry and as it was otherwise. -/
theorem IsArchive.isWithout (h : IsArchive b front shift headers comment)
    (h' : IsArchive b' front shift (headers.eraseIdx k) comment)
    (hread : List.Forall₂ (fun h entry => h.readAs shift = .ok entry) headers entries)
    (hlies : ∀ entry ∈ entries.eraseIdx k, LiesBefore b front.length entry) :
    Archive.open b = .ok ⟨b, entries⟩ ∧ Archive.open b' = .ok ⟨b', entries.eraseIdx k⟩ ∧
      Archive.IsWithout ⟨b', entries.eraseIdx k⟩ ⟨b, entries⟩ k := by
  refine ⟨h.open_eq hread, h'.open_eq (forall₂_eraseIdx hread k), ?_⟩
  exact List.forall₂_same.mpr fun entry hentry => h.isSameEntry h' (hlies entry hentry)

end written

end VendorScreen.Zip
