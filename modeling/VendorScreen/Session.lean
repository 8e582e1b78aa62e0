import VendorScreen.Batch
import VendorScreen.Inventory

namespace VendorScreen

/-!
# Sessions

Requests about the packages of a host are served one after another, and the host may change between
any two of them. The inventory is all that a session keeps: packages are classified anew on every
request.
-/

/-- The forms in which the packages can be asked for. -/
inductive ListForm where
  | records
  | identifiers
  | text
deriving DecidableEq, Repr

inductive Request where
  | packages (form : ListForm)
  | flaggedPackages
  | flaggedText
  | isFlagged (id : String)
  | keepFlagged (ids : List String)
  | classify (id : String)
  | icon (id : String)
  | defaultIcon
deriving DecidableEq, Repr

inductive Answer where
  | records (records : List PackageRecord)
  | identifiers (ids : List String)
  | text (text : String)
  | flagged (isFlagged : Bool)
  | verdict (verdict : Verdict)
  | error (cause : QueryError)
  | icon (icon : Option String)
  /-- The packages cannot be listed, with the causes from the outermost on. -/
  | failed (causes : List String)
  /-- A query was abandoned in line with its caller. -/
  | abandoned
deriving DecidableEq, Repr

namespace Answer

def ofList (form : ListForm) : Except HostFault (List PackageRecord) → Answer
  | .error fault => failed (inventoryFailureChain fault)
  | .ok listed =>
      match form with
      | .records => records listed
      | .identifiers => identifiers (Inventory.identifiers listed)
      | .text => text (PackageRecord.listJson listed).write

def ofFlag? : Option Bool → Answer
  | some isFlagged => flagged isFlagged
  | none => abandoned

def ofKept? (present : List String → Answer) : Option (List String) → Answer
  | some ids => present ids
  | none => abandoned

def ofOutcome : Outcome QueryError Verdict → Answer
  | .ok found => verdict found
  | .error cause => error cause
  | .abandoned => abandoned

end Answer

structure Session where
  host : Host
  inventory : Inventory

/-- An answer, the session after it, and the calls made for it. -/
structure Service where
  answer : Answer
  session : Session
  calls : List Call

namespace Session

def packages (s : Session) (form : ListForm) : Service :=
  let reply := s.inventory.list s.host
  ⟨.ofList form reply.value, { s with inventory := reply.inventory }, reply.calls⟩

/-- Lists the packages, and then classifies each of them. -/
def flaggedPackages (s : Session) (i : Inspector) (w : Waiting) (present : List String → Answer) :
    Service :=
  let reply := s.inventory.list s.host
  let after := { s with inventory := reply.inventory }
  match reply.value with
  | .error fault => ⟨.failed (inventoryFailureChain fault), after, reply.calls⟩
  | .ok records =>
      let ids := Inventory.identifiers records
      ⟨.ofKept? present (i.keepFlagged? s.host w ids), after,
        reply.calls ++ i.batchCalls s.host w ids⟩

def iconService (s : Session) (reply : Inventory.Reply (Option String)) : Service :=
  ⟨.icon reply.value, { s with inventory := reply.inventory }, reply.calls⟩

/-- Serves a request with the host as it is now. -/
def serve (s : Session) (i : Inspector) (w : Waiting) : Request → Service
  | .packages form => s.packages form
  | .flaggedPackages => s.flaggedPackages i w .identifiers
  | .flaggedText => s.flaggedPackages i w fun ids ↦ .text (Json.texts ids).write
  | .isFlagged id =>
      let plain := i.ask s.host w id
      ⟨.ofFlag? plain.value, s, plain.calls⟩
  | .keepFlagged ids =>
      ⟨.ofKept? .identifiers (i.keepFlagged? s.host w ids), s, i.batchCalls s.host w ids⟩
  | .classify id =>
      let report := i.classify s.host .never id
      ⟨.ofOutcome report.outcome, s, report.calls⟩
  | .icon id => s.iconService (s.inventory.icon s.host id)
  | .defaultIcon => s.iconService (s.inventory.defaultIcon s.host)

inductive Event where
  | change (host : Host)
  | ask (request : Request)

def next (i : Inspector) (w : Waiting) (s : Session) : Event → Session
  | .change host => { s with host }
  | .ask request => (s.serve i w request).session

/-- The session after some events, the first one first. -/
def after (i : Inspector) (w : Waiting) (s : Session) (events : List Event) : Session :=
  events.foldl (next i w) s

/-- The calls made during some events. -/
def callsDuring (i : Inspector) (w : Waiting) (s : Session) : List Event → List Call
  | [] => []
  | .change host :: rest => callsDuring i w { s with host } rest
  | .ask request :: rest =>
      let service := s.serve i w request
      service.calls ++ callsDuring i w service.session rest

end Session

end VendorScreen
