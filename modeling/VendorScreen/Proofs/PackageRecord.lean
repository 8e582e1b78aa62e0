import VendorScreen.Proofs.Json.RoundTrip
import VendorScreen.PackageRecord

namespace VendorScreen

/-!
# Records read back

What is written about a package is read back as it was: a report whole, and a record as a report
without permissions.
-/

/-- The number fits 64 bits with a sign. -/
def IsInt64 (n : ℤ) : Prop := -Json.int64Limit ≤ n ∧ n < Json.int64Limit

instance (n : ℤ) : Decidable (IsInt64 n) := inferInstanceAs (Decidable (_ ∧ _))

namespace Json

@[simp] theorem toInt?_ofInt (n : ℤ) : (Numeral.ofInt n).toInt? = some n := by
  by_cases hn : n < 0
  · simp [Numeral.ofInt, Numeral.toInt?, hn, hn.ne, abs_of_neg hn]
  · simp [Numeral.ofInt, Numeral.toInt?, hn, abs_of_nonneg (not_lt.mp hn)]

theorem int64?_int {n : ℤ} (h : IsInt64 n) : int64? (.int n) = some n := by
  rw [int, int64?, toInt?_ofInt]
  exact if_pos h

/-- An array is read item by item. -/
theorem mapM_map_eq_some {α β : Type} {items : List α} {write : α → Json} {read : Json → Option β}
    {value : α → β} (h : ∀ item ∈ items, read (write item) = some (value item)) :
    (items.map write).mapM read = some (items.map value) := by
  induction items with
  | nil => rfl
  | cons item items ih =>
      have hitem := h item List.mem_cons_self
      have hrest := ih fun other hother => h other (List.mem_cons_of_mem _ hother)
      simp [List.mapM_cons, hitem, hrest]

@[simp] theorem texts?_texts (items : List String) : texts? (.texts items) = some items := by
  rw [texts, texts?, mapM_map_eq_some fun item _ => (rfl : text? (text item) = some item),
    List.map_id']

theorem hasText_texts (items : List String) : HasText (.texts items) := by
  apply HasText.array
  intro item hitem
  obtain ⟨s, -, rfl⟩ := List.mem_map.mp hitem
  exact .string s

theorem hasText_ofFields {fields : List (String × Json)} (h : ∀ field ∈ fields, HasText field.2) :
    HasText (.ofFields fields) := by
  apply HasText.object
  · intro field hfield
    obtain ⟨plain, -, rfl⟩ := List.mem_map.mp hfield
    rfl
  · intro field hfield
    obtain ⟨plain, hplain, rfl⟩ := List.mem_map.mp hfield
    exact h plain hplain

end Json

namespace InstalledPackage

theorem hasText_toJson (p : InstalledPackage) : Json.HasText p.toJson := by
  apply Json.hasText_ofFields
  intro field hfield
  fin_cases hfield
  · exact .string _
  · exact .string _
  · exact .bool _
  · exact .number _
  · exact Json.hasText_texts _

theorem ofJson?_toJson {p : InstalledPackage} (h : IsInt64 p.firstInstallTime) :
    ofJson? p.toJson = some p := by
  have htime := Json.int64?_int h
  simp [toJson, Json.ofFields, ofJson?, Json.keysHaveText, ofFields?, Json.required?, Json.fieldD?,
    Json.field?, Json.lookup, Json.text, Json.text?, Json.bool?, htime]

/-- Reads the reports in an array. -/
def list? : Json → Option (List InstalledPackage)
  | .array items => items.mapM ofJson?
  | _ => none

def readList? (text : String) : Option (List InstalledPackage) := (Json.read? text).bind list?

end InstalledPackage

namespace PackageRecord

/-- The record as a report, which lacks the permissions. -/
def bare (r : PackageRecord) : InstalledPackage :=
  ⟨r.packageName, r.label, r.isSystem, r.firstInstallTime, []⟩

theorem hasText_toJson (r : PackageRecord) : Json.HasText r.toJson := by
  apply Json.hasText_ofFields
  intro field hfield
  fin_cases hfield
  · exact .string _
  · exact .string _
  · exact .bool _
  · exact .number _

theorem hasText_listJson (records : List PackageRecord) : Json.HasText (listJson records) := by
  apply Json.HasText.array
  intro item hitem
  obtain ⟨r, -, rfl⟩ := List.mem_map.mp hitem
  exact r.hasText_toJson

theorem ofJson?_toJson {r : PackageRecord} (h : IsInt64 r.firstInstallTime) :
    InstalledPackage.ofJson? r.toJson = some r.bare := by
  have htime := Json.int64?_int h
  simp [toJson, Json.ofFields, InstalledPackage.ofJson?, Json.keysHaveText,
    InstalledPackage.ofFields?, Json.required?, Json.fieldD?, Json.field?, Json.lookup, Json.text,
    Json.text?, Json.bool?, htime, bare]

theorem list?_listJson {records : List PackageRecord}
    (h : ∀ r ∈ records, IsInt64 r.firstInstallTime) :
    InstalledPackage.list? (listJson records) = some (records.map bare) := by
  rw [listJson, InstalledPackage.list?]
  exact Json.mapM_map_eq_some fun r hr => ofJson?_toJson (h r hr)

end PackageRecord

end VendorScreen
