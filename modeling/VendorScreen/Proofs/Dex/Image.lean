import VendorScreen.Proofs.Dex.Header
import VendorScreen.Proofs.Dex.ModifiedUtf8
import VendorScreen.Proofs.Earliest

namespace VendorScreen.Dex

/-!
# Images of class containers

An image of some descriptors is a container whose class definitions lead to them, through types and
strings, wherever its tables stand. Decoding an image gives the names of all its classes, or the
first descriptor that names no class.
-/

/-- The descriptor is `L`, a body that is not empty, and a semicolon. -/
def IsClassDescriptor (descriptor : String) : Prop :=
  ∃ body : List Char, body ≠ [] ∧ descriptor.toList = 'L' :: (body ++ [';'])

/-- What stands between the first and the last character, with dots for slashes and dollar signs. -/
def dottedName (descriptor : String) : String :=
  String.ofList (descriptor.toList.tail.dropLast.map fun c => if c = '/' ∨ c = '$' then '.' else c)

section descriptors

variable {descriptor : String}

theorem descriptorBody?_eq_some_iff {body : List Char} :
    descriptorBody? descriptor = some body ↔
      body ≠ [] ∧ descriptor.toList = 'L' :: (body ++ [';']) := by
  unfold descriptorBody?
  split
  · rename_i rest hlist
    constructor
    · intro h
      split_ifs at h with hends
      obtain rfl := Option.some.inj h
      have hrest := List.dropLast_append_getLast? ';' hends.1
      refine ⟨?_, by rw [hlist, hrest]⟩
      intro hempty
      have hlength := congrArg List.length hempty
      rw [List.length_dropLast, List.length_nil] at hlength
      omega
    · rintro ⟨hbody, hlist'⟩
      have hrest : rest = body ++ [';'] := List.tail_eq_of_cons_eq (hlist.symm.trans hlist')
      have hlength : 0 < body.length := List.length_pos_of_ne_nil hbody
      rw [if_pos ⟨by simp [hrest], by simp [hrest]; omega⟩]
      simp [hrest]
  · rename_i hother
    constructor
    · intro h
      cases h
    · rintro ⟨-, hlist⟩
      exact absurd hlist (hother _)

theorem className_of_isClassDescriptor (h : IsClassDescriptor descriptor) :
    className descriptor = .ok (dottedName descriptor) := by
  obtain ⟨body, hbody, hlist⟩ := h
  have hinner : descriptor.toList.tail.dropLast = body := by simp [hlist]
  rw [className, descriptorBody?_eq_some_iff.mpr ⟨hbody, hlist⟩, dottedName, hinner]
  rfl

theorem className_of_not_isClassDescriptor (h : ¬ IsClassDescriptor descriptor) :
    className descriptor = .error (.badDescriptor descriptor) := by
  have hnone : descriptorBody? descriptor = none := by
    rw [Option.eq_none_iff_forall_ne_some]
    intro body hbody
    exact h ⟨body, descriptorBody?_eq_some_iff.mp hbody⟩
  rw [className, hnone]

end descriptors

/-- Where the tables of a container stand. -/
structure Layout where
  stringIds : ℕ
  typeIds : ℕ
  classDefs : ℕ

def number (value : ℕ) : List UInt8 := Bytes.ofField value 4

def digit (n : Fin 10) : UInt8 := (0x30 + n.val).toUInt8

def magicOf (p q r : Fin 10) : List UInt8 :=
  [0x64, 0x65, 0x78, 0x0a, digit p, digit q, digit r, 0x00]

/-- The definition, the type and the string that lead to a descriptor. -/
def LeadsTo (b : ByteArray) (layout : Layout) (count classDef : ℕ) (descriptor : String) : Prop :=
  ∃ type string offset, type < count ∧ string < count ∧
    Bytes.Holds b (layout.classDefs + classDef * classDefSize) (number type) ∧
    Bytes.Holds b (layout.typeIds + type * 4) (number string) ∧
    Bytes.Holds b (layout.stringIds + string * 4) (number offset) ∧
    Bytes.Holds b offset (ModifiedUtf8.encode descriptor)

/-- The bytes are a container with the descriptors. What decoding does not read is left open. -/
structure IsImage (b : ByteArray) (layout : Layout) (descriptors : List String) : Prop where
  size_lt : b.size < 2 ^ 32
  header_le : 0x70 ≤ b.size
  magic : ∃ p q r, Bytes.Holds b 0 (magicOf p q r)
  fileSize : Bytes.Holds b 0x20 (number b.size)
  headerSize : Bytes.Holds b 0x24 (number 0x70)
  endianTag : Bytes.Holds b 0x28 (number endianConstant)
  stringIds : Bytes.Holds b 0x38 (number descriptors.length ++ number layout.stringIds)
  typeIds : Bytes.Holds b 0x40 (number descriptors.length ++ number layout.typeIds)
  classDefs : Bytes.Holds b 0x60 (number descriptors.length ++ number layout.classDefs)
  stringIds_le : layout.stringIds + descriptors.length * 4 ≤ b.size
  typeIds_le : layout.typeIds + descriptors.length * 4 ≤ b.size
  classDefs_le : layout.classDefs + descriptors.length * classDefSize ≤ b.size
  leads : ∀ k (hk : k < descriptors.length),
    LeadsTo b layout descriptors.length k descriptors[k]

section reading

variable {b : ByteArray} {layout : Layout} {descriptors : List String} {start value : ℕ}

theorem readNumber_of_holds {place : Place} (hvalue : value < 2 ^ 32)
    (h : Bytes.Holds b start (number value)) : readNumber b start place = .ok value :=
  readNumber_of_u32? (Bytes.u32?_of_holds hvalue h)

theorem standsAt_of_holds {size offset : ℕ} (hsize : size < 2 ^ 32) (hoffset : offset < 2 ^ 32)
    (h : Bytes.Holds b start (number size ++ number offset)) :
    Table.StandsAt ⟨size, offset⟩ b start := by
  obtain ⟨hfirst, hsecond⟩ := Bytes.holds_append.mp h
  rw [number, Bytes.length_ofField] at hsecond
  exact ⟨Bytes.u32?_of_holds hsize hfirst, Bytes.u32?_of_holds hoffset hsecond⟩

theorem isDigit_digit (n : Fin 10) : isDigit (digit n) = true := by
  revert n
  decide

theorem isMagic_of_holds {p q r : Fin 10} (h : Bytes.Holds b 0 (magicOf p q r)) :
    isMagic (b.extract 0 8).data.toList = true := by
  have hextract : (b.extract 0 8).data.toList = magicOf p q r := h.extract
  rw [hextract]
  simp [magicOf, isMagic, isDigit_digit]

/-- The tables of the container that an image opens as. -/
def Layout.container (layout : Layout) (b : ByteArray) (count : ℕ) : Container :=
  ⟨b, ⟨count, layout.stringIds⟩, ⟨count, layout.typeIds⟩, ⟨count, layout.classDefs⟩⟩

theorem IsImage.length_lt (h : IsImage b layout descriptors) : descriptors.length < 2 ^ 32 := by
  have hsize := h.size_lt
  have hdefs := h.classDefs_le
  simp only [classDefSize] at hdefs
  omega

theorem IsImage.offsets_lt (h : IsImage b layout descriptors) :
    layout.stringIds < 2 ^ 32 ∧ layout.typeIds < 2 ^ 32 ∧ layout.classDefs < 2 ^ 32 := by
  have hsize := h.size_lt
  have hstrings := h.stringIds_le
  have htypes := h.typeIds_le
  have hdefs := h.classDefs_le
  omega

/-- The header of an image of so many descriptors. -/
def Layout.header (layout : Layout) (b : ByteArray) (count : ℕ) : Header where
  endianTag := endianConstant
  size := 0x70
  fileSize := b.size
  stringIds := ⟨count, layout.stringIds⟩
  typeIds := ⟨count, layout.typeIds⟩
  classDefs := ⟨count, layout.classDefs⟩

theorem IsImage.header_isOf (h : IsImage b layout descriptors) :
    (layout.header b descriptors.length).IsOf b := by
  obtain ⟨hstrings, htypes, hdefs⟩ := h.offsets_lt
  have htag : endianConstant < 2 ^ 32 := by decide
  have hsize : 0x70 < 2 ^ 32 := by decide
  exact ⟨Bytes.u32?_of_holds htag h.endianTag, Bytes.u32?_of_holds hsize h.headerSize,
    Bytes.u32?_of_holds h.size_lt h.fileSize, standsAt_of_holds h.length_lt hstrings h.stringIds,
    standsAt_of_holds h.length_lt htypes h.typeIds,
    standsAt_of_holds h.length_lt hdefs h.classDefs⟩

theorem IsImage.header_isAccepted (h : IsImage b layout descriptors) :
    (layout.header b descriptors.length).IsAccepted b := by
  obtain ⟨p, q, r, hmagic⟩ := h.magic
  exact ⟨h.header_le, isMagic_of_holds hmagic, rfl, Nat.le_refl _, Nat.le_refl _, h.stringIds_le,
    h.typeIds_le, h.classDefs_le⟩

theorem IsImage.open_eq (h : IsImage b layout descriptors) :
    Container.open b = .ok (layout.container b descriptors.length) :=
  open_eq_ok_iff.mpr ⟨_, h.header_isOf, h.header_isAccepted, rfl⟩

theorem item_of_holds {c : Container} {table : Table} {place : Place} {index : ℕ}
    (hindex : index < table.size) (hvalue : value < 2 ^ 32)
    (h : Bytes.Holds c.bytes (table.offset + index * 4) (number value)) :
    c.item table place index = .ok value := by
  rw [Container.item, if_neg (Nat.not_le.mpr hindex), readNumber_of_holds hvalue h]

theorem descriptor_of_leadsTo {count k : ℕ} {descriptor : String} (hsize : b.size < 2 ^ 32)
    (hcount : count < 2 ^ 32) (h : LeadsTo b layout count k descriptor) :
    (layout.container b count).descriptor k = .ok descriptor := by
  obtain ⟨type, string, offset, htype, hstring, hdef, htypeId, hstringId, hdata⟩ := h
  have hoffset : offset < 2 ^ 32 := by
    have hfit := hdata.le_size (by simp [ModifiedUtf8.encode])
    omega
  have hfirst : readNumber b (layout.classDefs + k * classDefSize) .classDef = .ok type :=
    readNumber_of_holds (by omega) hdef
  have hsecond :
      (layout.container b count).item ⟨count, layout.typeIds⟩ .typeIds type = .ok string :=
    item_of_holds htype (by omega) htypeId
  have hthird :
      (layout.container b count).item ⟨count, layout.stringIds⟩ .stringIds string = .ok offset :=
    item_of_holds hstring hoffset hstringId
  have hlast := ModifiedUtf8.read_of_holds hsize hdata
  change (readNumber b (layout.classDefs + k * classDefSize) .classDef >>= fun typeIndex =>
    (layout.container b count).item ⟨count, layout.typeIds⟩ .typeIds typeIndex >>=
      fun stringIndex =>
        (layout.container b count).item ⟨count, layout.stringIds⟩ .stringIds stringIndex >>=
          ModifiedUtf8.read b) = .ok descriptor
  simp only [hfirst, hsecond, hthird, hlast, bind, Except.bind]

theorem IsImage.name_eq (h : IsImage b layout descriptors) {k : ℕ} (hk : k < descriptors.length) :
    (layout.container b descriptors.length).name k = className descriptors[k] := by
  rw [Container.name, descriptor_of_leadsTo h.size_lt h.length_lt (h.leads k hk)]
  rfl

theorem IsImage.classNames_eq_ok (h : IsImage b layout descriptors)
    (hall : ∀ descriptor ∈ descriptors, IsClassDescriptor descriptor) :
    classNames b = .ok (descriptors.map dottedName) := by
  rw [classNames_eq_ok_iff]
  refine ⟨_, h.open_eq, by simp [Layout.container], ?_⟩
  intro k hk
  have hk' : k < descriptors.length := by simpa using hk
  have hgood : IsClassDescriptor descriptors[k] := hall _ (List.getElem_mem hk')
  rw [h.name_eq hk', className_of_isClassDescriptor hgood, List.getElem_map]

theorem IsImage.classNames_eq_error (h : IsImage b layout descriptors) {k : ℕ} {descriptor : String}
    (hfirst : IsEarliest (fun d => ¬ IsClassDescriptor d) descriptors k descriptor) :
    classNames b = .error (.badDescriptor descriptor) := by
  obtain ⟨hget, hbad, hbefore⟩ := hfirst
  obtain ⟨hk, rfl⟩ := List.getElem?_eq_some_iff.mp hget
  have hnames : (layout.container b descriptors.length).names =
      .error (.badDescriptor descriptors[k]) := by
    apply Container.namesFrom_eq_error hk
    · intro j hj
      have hgood : IsClassDescriptor descriptors[j] := by
        by_contra hcontra
        exact hbefore j hj _ (List.getElem?_eq_getElem (Nat.lt_trans hj hk)) hcontra
      refine ⟨dottedName descriptors[j], ?_⟩
      rw [Nat.zero_add, h.name_eq (Nat.lt_trans hj hk), className_of_isClassDescriptor hgood]
    · rw [Nat.zero_add, h.name_eq hk, className_of_not_isClassDescriptor hbad]
  rw [classNames, h.open_eq]
  exact hnames

end reading

section building

/-- Where strings that stand behind each other begin. -/
def offsets (start : ℕ) : List String → List ℕ
  | [] => []
  | text :: rest => start :: offsets (start + (ModifiedUtf8.encode text).length) rest

def stringData (descriptors : List String) : List UInt8 :=
  descriptors.flatMap ModifiedUtf8.encode

/-- A definition of a public class without anything in it. -/
def classDefItem (type : ℕ) : List UInt8 :=
  number type ++ (number 1 ++ number 0xffffffff ++ number 0 ++ number 0xffffffff
    ++ List.replicate 12 0)

/-- The layout of an image whose tables follow the header. -/
def compactLayout (count : ℕ) : Layout := ⟨0x70, 0x70 + count * 4, 0x70 + count * 8⟩

def compactDataStart (count : ℕ) : ℕ := 0x70 + count * 40

/-- The header of such an image, of version `p q r`. Checksum and signature are left zero. -/
def compactHeader (p q r : Fin 10) (count dataSize : ℕ) : List UInt8 :=
  magicOf p q r ++ List.replicate 24 0 ++ number (compactDataStart count + dataSize) ++ number 0x70
    ++ number endianConstant ++ List.replicate 12 0
    ++ (number count ++ number (compactLayout count).stringIds)
    ++ (number count ++ number (compactLayout count).typeIds) ++ List.replicate 24 0
    ++ (number count ++ number (compactLayout count).classDefs)
    ++ (number dataSize ++ number (compactDataStart count))

/-- The image that has one string, one type and one definition for each descriptor, in order. -/
def compactImage (p q r : Fin 10) (descriptors : List String) : ByteArray :=
  (compactHeader p q r descriptors.length (stringData descriptors).length
    ++ (offsets (compactDataStart descriptors.length) descriptors).flatMap number
    ++ (List.range descriptors.length).flatMap number
    ++ (List.range descriptors.length).flatMap classDefItem
    ++ stringData descriptors).toByteArray

@[simp] theorem length_number (value : ℕ) : (number value).length = 4 :=
  Bytes.length_ofField value 4

@[simp] theorem length_classDefItem (type : ℕ) : (classDefItem type).length = classDefSize := by
  simp [classDefItem, classDefSize]

theorem length_flatMap_number (values : List ℕ) :
    (values.flatMap number).length = values.length * 4 := by
  simp [List.length_flatMap]

theorem length_flatMap_classDefItem (types : List ℕ) :
    (types.flatMap classDefItem).length = types.length * classDefSize := by
  simp [List.length_flatMap]

@[simp] theorem length_compactHeader (p q r : Fin 10) (count dataSize : ℕ) :
    (compactHeader p q r count dataSize).length = 0x70 := by
  simp [compactHeader, magicOf]

@[simp] theorem length_offsets (start : ℕ) (texts : List String) :
    (offsets start texts).length = texts.length := by
  induction texts generalizing start with
  | nil => rfl
  | cons text texts ih => simp [offsets, ih]

theorem holds_offset {b : ByteArray} {start k : ℕ} {texts : List String}
    (h : Bytes.Holds b start (stringData texts)) (hk : k < texts.length)
    (hk' : k < (offsets start texts).length) :
    Bytes.Holds b (offsets start texts)[k] (ModifiedUtf8.encode texts[k]) := by
  induction texts generalizing start k with
  | nil => simp at hk
  | cons text texts ih =>
      rw [stringData, List.flatMap_cons, Bytes.holds_append] at h
      cases k with
      | zero => exact h.1
      | succ k => exact ih h.2 (by simpa using hk) (by simpa using hk)

variable (p q r : Fin 10) (descriptors : List String)

theorem size_compactImage :
    (compactImage p q r descriptors).size =
      compactDataStart descriptors.length + (stringData descriptors).length := by
  simp only [compactImage, List.size_toByteArray, List.length_append, length_compactHeader,
    length_flatMap_number, length_flatMap_classDefItem, length_offsets, List.length_range,
    classDefSize, compactDataStart]
  omega

/-- The parts of the image stand behind each other. -/
theorem holds_compactImage {b : ByteArray} (hb : b = compactImage p q r descriptors) :
    Bytes.Holds b 0 (compactHeader p q r descriptors.length (stringData descriptors).length) ∧
    Bytes.Holds b 0x70
      ((offsets (compactDataStart descriptors.length) descriptors).flatMap number) ∧
    Bytes.Holds b (0x70 + descriptors.length * 4) ((List.range descriptors.length).flatMap number) ∧
    Bytes.Holds b (0x70 + descriptors.length * 8)
      ((List.range descriptors.length).flatMap classDefItem) ∧
    Bytes.Holds b (compactDataStart descriptors.length) (stringData descriptors) := by
  have hall := Bytes.holds_toByteArray [] (compactHeader p q r descriptors.length
    (stringData descriptors).length
      ++ (offsets (compactDataStart descriptors.length) descriptors).flatMap number
      ++ (List.range descriptors.length).flatMap number
      ++ (List.range descriptors.length).flatMap classDefItem
      ++ stringData descriptors) []
  rw [List.nil_append, List.append_nil, List.length_nil, ← compactImage, ← hb] at hall
  simp only [Bytes.holds_append, List.length_append, length_compactHeader, length_flatMap_number,
    length_flatMap_classDefItem, length_offsets, List.length_range, Nat.zero_add] at hall
  obtain ⟨⟨⟨⟨hheader, hstrings⟩, htypes⟩, hdefs⟩, hdata⟩ := hall
  refine ⟨hheader, hstrings, htypes, ?_, ?_⟩
  · rwa [Nat.add_assoc, ← Nat.mul_add] at hdefs
  · rwa [Nat.add_assoc, Nat.add_assoc, ← Nat.mul_add, ← Nat.mul_add] at hdata

theorem leadsTo_compactImage {k : ℕ} (hk : k < descriptors.length) :
    LeadsTo (compactImage p q r descriptors) (compactLayout descriptors.length) descriptors.length k
      descriptors[k] := by
  obtain ⟨-, hstrings, htypes, hdefs, hdata⟩ := holds_compactImage p q r descriptors rfl
  have hrange : k < (List.range descriptors.length).length := by simpa using hk
  have hoffset : k < (offsets (compactDataStart descriptors.length) descriptors).length := by
    simpa using hk
  have hdef := Bytes.Holds.item (fun type _ => length_classDefItem type) hdefs hrange
  have htype := Bytes.Holds.item (fun string _ => length_number string) htypes hrange
  have hstring := Bytes.Holds.item (fun offset _ => length_number offset) hstrings hoffset
  rw [List.getElem_range] at hdef htype
  rw [classDefItem, Bytes.holds_append] at hdef
  exact ⟨k, k, _, hk, hk, hdef.1, htype, hstring, holds_offset hdata hk hoffset⟩

/-- The places in the header that decoding reads. -/
theorem holds_header_compactImage {b : ByteArray} (hb : b = compactImage p q r descriptors) :
    Bytes.Holds b 0 (magicOf p q r) ∧ Bytes.Holds b 0x20 (number b.size) ∧
    Bytes.Holds b 0x24 (number 0x70) ∧ Bytes.Holds b 0x28 (number endianConstant) ∧
    Bytes.Holds b 0x38 (number descriptors.length
      ++ number (compactLayout descriptors.length).stringIds) ∧
    Bytes.Holds b 0x40 (number descriptors.length
      ++ number (compactLayout descriptors.length).typeIds) ∧
    Bytes.Holds b 0x60 (number descriptors.length
      ++ number (compactLayout descriptors.length).classDefs) := by
  have hheader := (holds_compactImage p q r descriptors hb).1
  have hmagic : (magicOf p q r).length = 8 := rfl
  rw [hb, size_compactImage, ← hb]
  simp only [compactHeader, Bytes.holds_append, List.length_append, length_number, hmagic,
    List.length_replicate, Nat.zero_add, Nat.reduceAdd] at hheader ⊢
  obtain ⟨⟨⟨⟨⟨hfirst, hstrings⟩, htypes⟩, -⟩, hdefs⟩, -⟩ := hheader
  obtain ⟨⟨⟨⟨⟨hmark, -⟩, hfile⟩, hsize⟩, htag⟩, -⟩ := hfirst
  exact ⟨hmark, hfile, hsize, htag, hstrings, htypes, hdefs⟩

theorem isImage_compactImage (hsize : (compactImage p q r descriptors).size < 2 ^ 32) :
    IsImage (compactImage p q r descriptors) (compactLayout descriptors.length) descriptors := by
  have htotal := size_compactImage p q r descriptors
  obtain ⟨hmagic, hfile, hheader, htag, hstrings, htypes, hdefs⟩ :=
    holds_header_compactImage p q r descriptors rfl
  simp only [compactDataStart] at htotal
  refine ⟨hsize, by omega, ⟨p, q, r, hmagic⟩, hfile, hheader, htag, hstrings, htypes, hdefs,
    ?_, ?_, ?_, fun k hk => leadsTo_compactImage p q r descriptors hk⟩
  · simp only [compactLayout]
    omega
  · simp only [compactLayout]
    omega
  · simp only [compactLayout, classDefSize]
    omega

end building

/-- Decoding an image gives back its descriptors as names, wherever the tables stand, unless one of
them is not that of a class; then the first such descriptor is the fault. The image that is laid out
without gaps is one as long as its size has 32 bits. -/
theorem classNames_of_image (descriptors : List String) :
    (∀ b layout, IsImage b layout descriptors →
      ((∀ descriptor ∈ descriptors, IsClassDescriptor descriptor) →
        classNames b = .ok (descriptors.map dottedName)) ∧
      ∀ k descriptor, IsEarliest (fun d => ¬ IsClassDescriptor d) descriptors k descriptor →
        classNames b = .error (.badDescriptor descriptor)) ∧
    (∀ p q r, (compactImage p q r descriptors).size < 2 ^ 32 →
      IsImage (compactImage p q r descriptors) (compactLayout descriptors.length) descriptors) := by
  constructor
  · intro b layout h
    exact ⟨h.classNames_eq_ok, fun k descriptor hfirst => h.classNames_eq_error hfirst⟩
  · intro p q r hsize
    exact isImage_compactImage p q r descriptors hsize

example : classNames (compactImage 0 3 5 ["La/B$C;", "L\x00𐐀;"]) =
    .ok ["a.B.C", "\x00𐐀"] := by decide +kernel

end VendorScreen.Dex
