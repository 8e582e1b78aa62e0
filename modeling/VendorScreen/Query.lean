import VendorScreen.Dex.Container
import VendorScreen.Host
import VendorScreen.Outcome
import VendorScreen.Verdict
import VendorScreen.Watchlist
import VendorScreen.Zip.Archive

namespace VendorScreen

/-!
# Classification queries

The cheap checks come first and the first conclusive one wins: the skip list, the identifier, the
declared components, and last the archive, entry by entry. A query looks at its stop flag before it
asks for the archive and before it deals with an entry.
-/

inductive ArchiveFault where
  | unopened (fault : Zip.Fault)
  | unreadableEntry (index : Nat) (fault : Zip.Fault)
deriving DecidableEq, Repr

def ArchiveFault.message : ArchiveFault → String
  | unopened .endOfBytes => "archive io: " ++ Zip.Fault.message .endOfBytes
  | unopened fault => "archive is not a zip container: " ++ fault.message
  | unreadableEntry index fault =>
      "unreadable archive entry #" ++ toString index ++ ": " ++ fault.message

inductive QueryError where
  | host (fault : HostFault)
  | archive (fault : ArchiveFault)
  | decode (fault : Dex.Fault)
  | cancelled
deriving DecidableEq, Repr

namespace QueryError

def message : QueryError → String
  | host fault => fault.message
  | archive fault => fault.message
  | decode fault => fault.message
  | cancelled => "classification cancelled"

/-- The name of the case in reports. -/
def kind : QueryError → String
  | host fault => fault.kind
  | archive _ => "archive-format"
  | decode _ => "decode"
  | cancelled => "cancelled"

end QueryError

/-- The moments at which a query looks at its stop flag. -/
inductive Moment where
  | beforeArchive
  | beforeEntry (index decodings : Nat)
deriving DecidableEq, Repr

/-- What a query sees of its stop flag. -/
abbrev StopFlag := Moment → Bool

namespace StopFlag

/-- The flag is never set. -/
def never : StopFlag := fun _ ↦ false

/-- The flag is set beforehand. -/
def always : StopFlag := fun _ ↦ true

/-- The flag is set while the archive is handed over. -/
def fromArchive : StopFlag
  | .beforeArchive => false
  | .beforeEntry _ _ => true

/-- The flag is set at the end of the decoding with the given number and of every later one. -/
def afterDecodings (count : Nat) : StopFlag
  | .beforeArchive => false
  | .beforeEntry _ decodings => 0 < decodings && count ≤ decodings

end StopFlag

abbrev Decoder := ByteSource → Nat → Except Dex.Fault (List String)

/-- What archives are judged by. -/
structure Inspector where
  watchlist : Watchlist
  sizeLimit : Nat
  decoder : Decoder

/-- The size in bytes above which a class container is flagged unread. -/
def defaultSizeLimit : Nat := 15000000

def Inspector.builtin : Inspector := ⟨.builtin, defaultSizeLimit, Dex.decode⟩

/-- How a query ended, and what it called on the way. -/
structure QueryReport where
  outcome : Outcome QueryError Verdict
  calls : List Call
deriving DecidableEq, Repr

namespace QueryReport

def preceded (calls : List Call) (r : QueryReport) : QueryReport :=
  { r with calls := calls ++ r.calls }

@[simp] theorem outcome_preceded (calls : List Call) (r : QueryReport) :
    (r.preceded calls).outcome = r.outcome := rfl

@[simp] theorem calls_preceded (calls : List Call) (r : QueryReport) :
    (r.preceded calls).calls = calls ++ r.calls := rfl

end QueryReport

/-- Entries at the top of an archive that hold compiled classes. -/
def isClassContainer (name : String) : Bool :=
  "classes".toList.isPrefixOf name.toList && ".dex".toList.isSuffixOf name.toList

/-- An entry whose name begins so marks a bundle of vendor-neutral libraries. -/
def neutralLibraryMarker : String := "firebase-"

/-- What one entry decides, with the decoder's call if there was one. -/
inductive Judgement where
  | decided (outcome : Outcome QueryError Verdict)
  | passed

namespace Inspector

/-- Judges the contents of a class container within the size limit. -/
def judgeContents (i : Inspector) (e : Zip.OpenEntry) : Judgement :=
  match i.decoder e.source e.entry.size with
  | .error fault => .decided (.error (.decode fault))
  | .ok names =>
      match names.find? i.watchlist.isFlagged with
      | some className => .decided (.ok (.classMatch e.entry.name className))
      | none => .passed

/-- Goes through the entries from number `index` on, after so many decodings. -/
def inspectFrom (i : Inspector) (flag : StopFlag) (bytes : ByteArray) (index decodings : Nat) :
    List Zip.Entry → QueryReport
  | [] => ⟨.ok .clean, []⟩
  | entry :: rest =>
      match entry.open bytes with
      | .abandoned => ⟨.abandoned, []⟩
      | .unreadable fault =>
          if flag (.beforeEntry index decodings) then ⟨.error .cancelled, []⟩
          else ⟨.error (.archive (.unreadableEntry index fault)), []⟩
      | .opened e =>
          if flag (.beforeEntry index decodings) then ⟨.error .cancelled, []⟩
          else if isClassContainer entry.name then
            if i.sizeLimit < entry.size then
              ⟨.ok (.oversizedClassContainer entry.name entry.size), []⟩
            else
              match i.judgeContents e with
              | .decided outcome => ⟨outcome, [.decode entry.name entry.size]⟩
              | .passed =>
                  (i.inspectFrom flag bytes (index + 1) (decodings + 1) rest).preceded
                    [.decode entry.name entry.size]
          else i.inspectFrom flag bytes (index + 1) decodings rest

/-- Judges the bytes of an archive. A marker entry decides before any entry is opened. -/
def inspect (i : Inspector) (flag : StopFlag) (bytes : ByteArray) : QueryReport :=
  match Zip.Archive.open bytes with
  | .error fault => ⟨.error (.archive (.unopened fault)), []⟩
  | .ok archive =>
      match archive.findName? neutralLibraryMarker with
      | some entry => ⟨.ok (.neutralLibrary entry), []⟩
      | none => i.inspectFrom flag bytes 0 0 archive.entries

/-- Judges the archive of a package whose identifier and components decided nothing. -/
def classifyArchive (i : Inspector) (host : Host) (flag : StopFlag) (id : String) : QueryReport :=
  if flag .beforeArchive then ⟨.error .cancelled, []⟩
  else
    match host.archive id with
    | .error fault => ⟨.error (.host fault), [.archive id]⟩
    | .ok bytes => (i.inspect flag bytes).preceded [.archive id]

/-- Classifies a package. -/
def classify (i : Inspector) (host : Host) (flag : StopFlag) (id : String) : QueryReport :=
  if i.watchlist.isSkipped id then ⟨.ok .skipped, []⟩
  else if i.watchlist.isFlagged id then ⟨.ok .identifierMatch, []⟩
  else
    match host.components id with
    | .error fault => ⟨.error (.host fault), [.components id]⟩
    | .ok components =>
        match components.find? fun component => i.watchlist.isFlagged component.className with
        | some component => ⟨.ok (.componentMatch component.className), [.components id]⟩
        | none => (i.classifyArchive host flag id).preceded [.components id]

end Inspector

/-- The plain answer of a query: every error counts as not flagged. An abandoned query has none. -/
def QueryReport.isFlagged? (r : QueryReport) : Option Bool :=
  match r.outcome with
  | .ok verdict => some verdict.isFlagged
  | .error _ => some false
  | .abandoned => none

/-- The answer of a query that runs apart from its caller, who then waits in vain if it is
abandoned. -/
def QueryReport.isFlaggedApart (r : QueryReport) : Bool := r.isFlagged?.getD false

end VendorScreen
