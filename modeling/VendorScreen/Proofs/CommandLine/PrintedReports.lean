import VendorScreen.CommandLine.Run
import VendorScreen.Proofs.PackageRecord

namespace VendorScreen

/-!
# Values and reports as they are printed

A value is printed in JSON with a line feed behind it, and reports are printed either as a value or
with a line for each of them. Who reads the JSON has the value again, and in it what stands under a
key.
-/

namespace Json

def under (key : String) : Json → List Json
  | object fields => lookup fields key
  | _ => []

/-- What stands under a key in the objects of an array. -/
def valuesUnder (key : String) : Json → List Json
  | array items => items.flatMap (under key)
  | _ => []

end Json

theorem PackageRecord.valuesUnder_listJson (records : List PackageRecord) :
    (listJson records).valuesUnder "packageName" =
      (records.map PackageRecord.packageName).map Json.text := by
  have hrecord (r : PackageRecord) : r.toJson.under "packageName" = [.text r.packageName] := by
    simp [toJson, Json.ofFields, Json.under, Json.lookup]
  rw [listJson, Json.valuesUnder, List.flatMap_map, List.map_map]
  simp only [hrecord]
  exact List.flatMap_pure_eq_map _ _

theorem Verdict.under_reason (v : Verdict) : v.toJson.under "reason" = [.text v.reason] := by
  cases v <;> simp [toJson, evidence, Json.ofFields, Json.under, Json.lookup]

theorem Verdict.hasText_toJson (v : Verdict) : Json.HasText v.toJson := by
  apply Json.hasText_ofFields
  intro field hfield
  rcases List.mem_cons.mp hfield with rfl | hfield
  · exact .string _
  · cases v with
    | skipped | identifierMatch | clean => cases hfield
    | componentMatch className =>
        obtain rfl := List.mem_singleton.mp hfield
        exact .string _
    | neutralLibrary entry =>
        obtain rfl := List.mem_singleton.mp hfield
        exact .string _
    | oversizedClassContainer entry size =>
        rcases List.mem_pair.mp hfield with rfl | rfl
        · exact .string _
        · exact .number _
    | classMatch entry className =>
        rcases List.mem_pair.mp hfield with rfl | rfl
        · exact .string _
        · exact .string _

namespace CommandLine

namespace Report

theorem hasText_toJson (r : Report) : Json.HasText r.toJson := by
  obtain ⟨target, finding, duration⟩ := r
  apply Json.hasText_ofFields
  intro field hfield
  fin_cases hfield
  · exact .string _
  · exact .bool _
  · cases finding with
    | ok v => exact v.hasText_toJson
    | error text => exact .string _
  · exact .number _

theorem hasText_array (reports : List Report) : Json.HasText (.array (reports.map toJson)) := by
  apply Json.HasText.array
  intro item hitem
  obtain ⟨r, -, rfl⟩ := List.mem_map.mp hitem
  exact r.hasText_toJson

theorem lines_singleton (text : String) : lines [text] = text ++ "\n" := by simp [lines]

/-- The object of a report names its target, says whether that is flagged, and holds a verdict with
its reason or an error, and never both. It says yes only beside a verdict that does. A line ends
with the same verdict or error. -/
structure IsSound (r : Report) : Prop where
  target : r.toJson.under "target" = [.text r.target]
  flagged : r.toJson.under "flagged" = [.bool r.isFlagged]
  finding : (∃ v : Verdict, r.toJson.under "verdict" = [v.toJson] ∧
      v.toJson.under "reason" = [.text v.reason] ∧ r.toJson.under "error" = [] ∧
      r.isFlagged = v.isFlagged ∧ r.detail = v.line) ∨
    ∃ text, r.toJson.under "verdict" = [] ∧ r.toJson.under "error" = [.text text] ∧
      r.isFlagged = false ∧ r.detail = text

theorem isSound (r : Report) : r.IsSound := by
  obtain ⟨target, finding, duration⟩ := r
  cases finding with
  | ok v =>
      refine ⟨?_, ?_, .inl ⟨v, ?_, v.under_reason, ?_, rfl, rfl⟩⟩ <;>
        simp [toJson, Json.ofFields, Json.under, Json.lookup]
  | error text =>
      refine ⟨?_, ?_, .inr ⟨text, ?_, ?_, rfl, rfl⟩⟩ <;>
        simp [toJson, Json.ofFields, Json.under, Json.lookup]

/-- The text in which some reports are printed. -/
def printout (reports : List Report) : OutputFormat → String
  | .json => (Json.array (reports.map toJson)).writeIndented ++ "\n"
  | .text => String.join (reports.map fun r =>
      r.target ++ "\t" ++ (if r.isFlagged then "true" else "false") ++ "\t" ++ r.detail ++ "\n")

theorem write_eq_printout (reports : List Report) (format : OutputFormat) :
    write reports format = printout reports format := by
  cases format with
  | json => exact lines_singleton _
  | text =>
      rw [write, lines, List.map_map]
      rfl

end Report

namespace Ending

/-- The value that is printed in JSON. -/
def value? : Ending → Option Json
  | printed text => Json.read? text
  | failed _ | refused _ | abandoned => none

/-- What stands under a key in the objects of the array that is printed. -/
def under? (key : String) (ending : Ending) : Option (List Json) :=
  ending.value?.map (Json.valuesUnder key)

def texts? (ending : Ending) : Option (List String) := ending.value?.bind Json.texts?

/-- The only report that is printed says that its target is flagged. -/
def saysFlagged (ending : Ending) : Bool :=
  match ending.under? "flagged" with
  | some [.bool isFlagged] => isFlagged
  | _ => false

/-- What is printed is a line that holds the value, and is read as the value. -/
structure IsLineOf (value : Json) (ending : Ending) : Prop where
  printed : ending = .printed (value.write ++ "\n")
  value? : ending.value? = some value

theorem isLineOf_printed {value : Json} (h : Json.HasText value) :
    IsLineOf value (.printed (Report.lines [value.write])) := by
  rw [Report.lines_singleton]
  exact ⟨rfl, Json.read?_write_line h⟩

/-- The reports are printed. In JSON they are read as the array of their objects. -/
structure Presents (reports : List Report) (format : OutputFormat) (ending : Ending) : Prop where
  printed : ending = .printed (Report.printout reports format)
  value? : format = .json → ending.value? = some (.array (reports.map Report.toJson))

theorem presents_printed (reports : List Report) (format : OutputFormat) :
    Presents reports format (.printed (Report.write reports format)) := by
  rw [Report.write_eq_printout]
  refine ⟨rfl, ?_⟩
  rintro rfl
  exact Json.read?_writeIndented_line (Report.hasText_array reports)

theorem Presents.saysFlagged {ending : Ending} {r : Report} (h : ending.Presents [r] .json) :
    ending.saysFlagged = r.isFlagged := by
  have hflagged : ending.under? "flagged" = some [.bool r.isFlagged] := by
    rw [under?, h.value? rfl]
    exact congrArg some ((List.append_nil _).trans r.isSound.flagged)
  rw [Ending.saysFlagged, hflagged]

end Ending

end CommandLine

end VendorScreen
