import VendorScreen.CommandLine.Invocation
import VendorScreen.Json.Writer
import VendorScreen.Query

namespace VendorScreen

/-!
# Reports on packages and archives

A report gives either the verdict on its target or the error that kept it from being found.
-/

namespace Verdict

/-- What a verdict rests on. -/
def evidence : Verdict → List (String × Json)
  | componentMatch className => [("class_name", .text className)]
  | neutralLibrary entry => [("entry", .text entry)]
  | oversizedClassContainer entry size => [("entry", .text entry), ("size", .int size)]
  | classMatch entry className => [("entry", .text entry), ("class_name", .text className)]
  | skipped | identifierMatch | clean => []

def toJson (v : Verdict) : Json := .ofFields (("reason", .text v.reason) :: v.evidence)

end Verdict

namespace CommandLine

structure Report where
  target : String
  finding : Except String Verdict
  /-- The milliseconds that the query took. -/
  duration : Nat

namespace Report

/-- An error with its kind in front. -/
def errorText (e : QueryError) : String := e.kind ++ ": " ++ e.message

/-- The report on a query. An abandoned query has none. -/
def ofQuery? (target : String) (r : QueryReport) : Option Report :=
  match r.outcome with
  | .ok verdict => some ⟨target, .ok verdict, 0⟩
  | .error e => some ⟨target, .error (errorText e), 0⟩
  | .abandoned => none

def isFlagged (r : Report) : Bool :=
  match r.finding with
  | .ok verdict => verdict.isFlagged
  | .error _ => false

def toJson (r : Report) : Json :=
  let finding := match r.finding with
    | .ok verdict => ("verdict", verdict.toJson)
    | .error text => ("error", .text text)
  .ofFields [("target", .text r.target), ("flagged", .bool r.isFlagged), finding,
    ("duration_ms", .int r.duration)]

def detail (r : Report) : String :=
  match r.finding with
  | .ok verdict => verdict.line
  | .error text => text

/-- The report in one line, with tabs between its fields. -/
def line (r : Report) : String :=
  r.target ++ "\t" ++ (if r.isFlagged then "true" else "false") ++ "\t" ++ r.detail

/-- Lines that each end in a line feed. -/
def lines (texts : List String) : String := String.join (texts.map (· ++ "\n"))

def write (reports : List Report) : OutputFormat → String
  | .json => lines [(Json.array (reports.map toJson)).writeIndented]
  | .text => lines (reports.map line)

end Report

end CommandLine

end VendorScreen
