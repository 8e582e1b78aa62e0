import VendorScreen.Query

namespace VendorScreen

/-!
# Plain answers

A caller who only wants to know which packages are flagged gets yes or no for each. A query runs in
line with its caller, or apart from him; then the caller gives it up when it is overdue, and the
answer is no.
-/

def Call.isDecoding : Call → Bool
  | .decode _ _ => true
  | _ => false

/-- How a caller waits for the queries about packages. -/
inductive Waiting where
  | inLine
  | apart (isOverdue : String → QueryReport → Bool)

/-- Yes or no, and the calls made up to then. A query that is abandoned in line has no answer. -/
structure PlainAnswer where
  value : Option Bool
  calls : List Call
deriving DecidableEq, Repr

namespace Waiting

/-- The answer that the caller takes from a query. An overdue query is given up while it waits for
the archive. -/
def answer (w : Waiting) (id : String) (r : QueryReport) : PlainAnswer :=
  match w with
  | inLine => ⟨r.isFlagged?, r.calls⟩
  | apart isOverdue =>
      if isOverdue id r then ⟨some false, r.calls.filter fun call ↦ !call.isDecoding⟩
      else ⟨some r.isFlaggedApart, r.calls⟩

end Waiting

namespace Inspector

/-- Whether the package is flagged. -/
def ask (i : Inspector) (host : Host) (w : Waiting) (id : String) : PlainAnswer :=
  w.answer id (i.classify host .never id)

/-- Keeps the flagged ones of some identifiers, if each of them gets an answer. -/
def keepFlagged? (i : Inspector) (host : Host) (w : Waiting) : List String → Option (List String)
  | [] => some []
  | id :: rest => do
      let flagged ← (i.ask host w id).value
      let others ← i.keepFlagged? host w rest
      return if flagged then id :: others else others

/-- The calls of the queries about some identifiers. -/
def batchCalls (i : Inspector) (host : Host) (w : Waiting) (ids : List String) : List Call :=
  ids.flatMap fun id ↦ (i.ask host w id).calls

end Inspector

end VendorScreen
