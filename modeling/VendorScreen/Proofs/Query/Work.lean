import Mathlib
import VendorScreen.Query

namespace VendorScreen

/-!
# Queries step by step

A query at work asks the host, looks at its stop flag, or deals with an entry, one thing at a time.
Its flag may be set between any two of these steps, but only the steps that look at it can tell.
What is left of a query is a report, and a step takes its own calls off the front of it.
-/

namespace QueryReport

@[simp] theorem preceded_nil (r : QueryReport) : r.preceded [] = r := rfl

@[simp] theorem preceded_preceded (first second : List Call) (r : QueryReport) :
    (r.preceded second).preceded first = r.preceded (first ++ second) := by
  simp only [preceded, List.append_assoc]

end QueryReport

/-- What a query has to do next. -/
inductive Task where
  | names
  | components
  | flagBeforeArchive
  | archive
  | opening (bytes : ByteArray)
  | entering (bytes : ByteArray) (index decodings : ℕ) (entries : List Zip.Entry)
  | flagBeforeEntry (bytes : ByteArray) (index decodings : ℕ) (entry : Zip.Entry)
      (rest : List Zip.Entry)
  | judging (bytes : ByteArray) (index decodings : ℕ) (entry : Zip.Entry) (rest : List Zip.Entry)
  | ended (outcome : Outcome QueryError Verdict)

namespace Inspector

variable (i : Inspector) (host : Host) (id : String)

/-- What a query does once its names have decided nothing. -/
def afterNames (flag : StopFlag) : QueryReport :=
  match host.components id with
  | .error fault => ⟨.error (.host fault), [.components id]⟩
  | .ok components =>
      match components.find? fun component => i.watchlist.isFlagged component.className with
      | some component => ⟨.ok (.componentMatch component.className), [.components id]⟩
      | none => (i.classifyArchive host flag id).preceded [.components id]

/-- What a query does once it has found its flag unset before the archive. -/
def afterFlag (flag : StopFlag) : QueryReport :=
  match host.archive id with
  | .error fault => ⟨.error (.host fault), [.archive id]⟩
  | .ok bytes => (i.inspect flag bytes).preceded [.archive id]

/-- What a query does with an entry once it has found its flag unset in front of it. -/
def judgeEntry (flag : StopFlag) (bytes : ByteArray) (index decodings : ℕ) (entry : Zip.Entry)
    (rest : List Zip.Entry) : QueryReport :=
  match entry.open bytes with
  | .abandoned => ⟨.abandoned, []⟩
  | .unreadable fault => ⟨.error (.archive (.unreadableEntry index fault)), []⟩
  | .opened e =>
      if isClassContainer entry.name then
        if i.sizeLimit < entry.size then
          ⟨.ok (.oversizedClassContainer entry.name entry.size), []⟩
        else
          match i.judgeContents e with
          | .decided outcome => ⟨outcome, [.decode entry.name entry.size]⟩
          | .passed =>
              (i.inspectFrom flag bytes (index + 1) (decodings + 1) rest).preceded
                [.decode entry.name entry.size]
      else i.inspectFrom flag bytes (index + 1) decodings rest

theorem classify_eq (flag : StopFlag) :
    i.classify host flag id =
      if i.watchlist.isSkipped id then ⟨.ok .skipped, []⟩
      else if i.watchlist.isFlagged id then ⟨.ok .identifierMatch, []⟩
      else i.afterNames host id flag := rfl

theorem classifyArchive_eq (flag : StopFlag) :
    i.classifyArchive host flag id =
      if flag .beforeArchive then ⟨.error .cancelled, []⟩ else i.afterFlag host id flag := rfl

theorem inspectFrom_cons (flag : StopFlag) (bytes : ByteArray) (index decodings : ℕ)
    (entry : Zip.Entry) (rest : List Zip.Entry) (hopen : entry.open bytes ≠ .abandoned) :
    i.inspectFrom flag bytes index decodings (entry :: rest) =
      if flag (.beforeEntry index decodings) then ⟨.error .cancelled, []⟩
      else i.judgeEntry flag bytes index decodings entry rest := by
  rw [inspectFrom, judgeEntry]
  cases h : entry.open bytes with
  | abandoned => exact absurd h hopen
  | unreadable fault => rfl
  | opened e => rfl

end Inspector

namespace Task

variable (i : Inspector) (host : Host) (id : String)

/-- One step of a query that would find its stop flag as given, and the calls made in it. -/
def step (isStopped : Bool) : Task → Task × List Call
  | names =>
      if i.watchlist.isSkipped id then (ended (.ok .skipped), [])
      else if i.watchlist.isFlagged id then (ended (.ok .identifierMatch), [])
      else (components, [])
  | components =>
      match host.components id with
      | .error fault => (ended (.error (.host fault)), [.components id])
      | .ok list =>
          match list.find? fun component => i.watchlist.isFlagged component.className with
          | some component =>
              (ended (.ok (.componentMatch component.className)), [.components id])
          | none => (flagBeforeArchive, [.components id])
  | flagBeforeArchive => (if isStopped then ended (.error .cancelled) else archive, [])
  | archive =>
      match host.archive id with
      | .error fault => (ended (.error (.host fault)), [.archive id])
      | .ok bytes => (opening bytes, [.archive id])
  | opening bytes =>
      match Zip.Archive.open bytes with
      | .error fault => (ended (.error (.archive (.unopened fault))), [])
      | .ok directory =>
          match directory.findName? neutralLibraryMarker with
          | some entry => (ended (.ok (.neutralLibrary entry)), [])
          | none => (entering bytes 0 0 directory.entries, [])
  | entering _ _ _ [] => (ended (.ok .clean), [])
  | entering bytes index decodings (entry :: rest) =>
      match entry.open bytes with
      | .abandoned => (ended .abandoned, [])
      | .unreadable _ | .opened _ => (flagBeforeEntry bytes index decodings entry rest, [])
  | flagBeforeEntry bytes index decodings entry rest =>
      (if isStopped then ended (.error .cancelled)
        else judging bytes index decodings entry rest, [])
  | judging bytes index decodings entry rest =>
      match entry.open bytes with
      | .abandoned => (ended .abandoned, [])
      | .unreadable fault => (ended (.error (.archive (.unreadableEntry index fault))), [])
      | .opened e =>
          if isClassContainer entry.name then
            if i.sizeLimit < entry.size then
              (ended (.ok (.oversizedClassContainer entry.name entry.size)), [])
            else
              match i.judgeContents e with
              | .decided outcome => (ended outcome, [.decode entry.name entry.size])
              | .passed =>
                  (entering bytes (index + 1) (decodings + 1) rest,
                    [.decode entry.name entry.size])
          else (entering bytes (index + 1) decodings rest, [])
  | ended outcome => (ended outcome, [])

/-- The moment at which the next step looks at the stop flag. -/
def moment? : Task → Option Moment
  | flagBeforeArchive => some .beforeArchive
  | flagBeforeEntry _ index decodings _ _ => some (.beforeEntry index decodings)
  | _ => none

/-- What is left of a query that sees its stop flag as given. -/
def report (flag : StopFlag) : Task → QueryReport
  | names => i.classify host flag id
  | components => i.afterNames host id flag
  | flagBeforeArchive => i.classifyArchive host flag id
  | archive => i.afterFlag host id flag
  | opening bytes => i.inspect flag bytes
  | entering bytes index decodings entries => i.inspectFrom flag bytes index decodings entries
  | flagBeforeEntry bytes index decodings entry rest =>
      if flag (.beforeEntry index decodings) then ⟨.error .cancelled, []⟩
      else i.judgeEntry flag bytes index decodings entry rest
  | judging bytes index decodings entry rest =>
      i.judgeEntry flag bytes index decodings entry rest
  | ended outcome => ⟨outcome, []⟩

/-- A step takes its calls off what is left, if it finds the flag as the query sees it. -/
theorem report_step {flag : StopFlag} {isStopped : Bool} (t : Task)
    (hflag : ∀ moment, t.moment? = some moment → flag moment = isStopped) :
    t.report i host id flag =
      ((t.step i host id isStopped).1.report i host id flag).preceded
        (t.step i host id isStopped).2 := by
  cases t with
  | names =>
      simp only [report, step, i.classify_eq]
      split
      · rfl
      · split <;> rfl
  | components =>
      simp only [report, step, Inspector.afterNames]
      cases host.components id with
      | error fault => rfl
      | ok list =>
          dsimp only
          cases list.find? fun component => i.watchlist.isFlagged component.className <;> rfl
  | flagBeforeArchive =>
      have hseen : flag .beforeArchive = isStopped := hflag _ rfl
      simp only [report, step, i.classifyArchive_eq, hseen]
      cases isStopped <;> rfl
  | archive =>
      simp only [report, step, Inspector.afterFlag]
      cases host.archive id <;> rfl
  | opening bytes =>
      simp only [report, step, Inspector.inspect]
      cases Zip.Archive.open bytes with
      | error fault => rfl
      | ok directory =>
          dsimp only
          cases directory.findName? neutralLibraryMarker <;> rfl
  | entering bytes index decodings entries =>
      cases entries with
      | nil => rfl
      | cons entry rest =>
          cases hopen : entry.open bytes with
          | abandoned => simp [report, step, Inspector.inspectFrom, hopen]
          | unreadable fault | opened e => simp [report, step, hopen, i.inspectFrom_cons]
  | flagBeforeEntry bytes index decodings entry rest =>
      have hseen : flag (.beforeEntry index decodings) = isStopped := hflag _ rfl
      simp only [report, step, hseen]
      cases isStopped <;> rfl
  | judging bytes index decodings entry rest =>
      simp only [report, step, Inspector.judgeEntry]
      cases entry.open bytes with
      | abandoned => rfl
      | unreadable fault => rfl
      | opened e =>
          dsimp only
          split
          · split
            · rfl
            · cases i.judgeContents e <;> rfl
          · rfl
  | ended outcome => rfl

def entryCount (bytes : ByteArray) : ℕ :=
  match Zip.Archive.open bytes with
  | .error _ => 0
  | .ok directory => directory.entries.length

/-- The number of entries in the archive that a query would be handed. -/
def handedCount : ℕ :=
  match host.archive id with
  | .error _ => 0
  | .ok bytes => entryCount bytes

/-- A bound on the steps that are left. Each entry takes three. -/
def stepsLeft : Task → ℕ
  | names => 3 * handedCount host id + 6
  | components => 3 * handedCount host id + 5
  | flagBeforeArchive => 3 * handedCount host id + 4
  | archive => 3 * handedCount host id + 3
  | opening bytes => 3 * entryCount bytes + 2
  | entering _ _ _ entries => 3 * entries.length + 1
  | flagBeforeEntry _ _ _ _ rest => 3 * rest.length + 3
  | judging _ _ _ _ rest => 3 * rest.length + 2
  | ended _ => 0

theorem stepsLeft_step_lt (isStopped : Bool) (t : Task) (ht : ∀ outcome, t ≠ ended outcome) :
    (t.step i host id isStopped).1.stepsLeft host id < t.stepsLeft host id := by
  cases t with
  | names =>
      simp only [step]
      split
      · exact Nat.succ_pos _
      · split
        · exact Nat.succ_pos _
        · exact Nat.lt_succ_self _
  | components =>
      simp only [step]
      cases host.components id with
      | error fault => exact Nat.succ_pos _
      | ok list =>
          dsimp only
          cases list.find? fun component => i.watchlist.isFlagged component.className with
          | some component => exact Nat.succ_pos _
          | none => exact Nat.lt_succ_self _
  | flagBeforeArchive =>
      cases isStopped with
      | true => exact Nat.succ_pos _
      | false => exact Nat.lt_succ_self _
  | archive =>
      simp only [step, stepsLeft, handedCount]
      cases host.archive id with
      | error fault => exact Nat.succ_pos _
      | ok bytes => exact Nat.lt_succ_self _
  | opening bytes =>
      simp only [step, stepsLeft, entryCount]
      cases Zip.Archive.open bytes with
      | error fault => exact Nat.succ_pos _
      | ok directory =>
          dsimp only
          cases directory.findName? neutralLibraryMarker with
          | some entry => exact Nat.succ_pos _
          | none => exact Nat.lt_succ_self _
  | entering bytes index decodings entries =>
      cases entries with
      | nil => exact Nat.one_pos
      | cons entry rest =>
          simp only [step, stepsLeft, List.length_cons]
          cases entry.open bytes with
          | abandoned => exact Nat.succ_pos _
          | unreadable fault | opened e => dsimp only; omega
  | flagBeforeEntry bytes index decodings entry rest =>
      cases isStopped with
      | true => exact Nat.succ_pos _
      | false => exact Nat.lt_succ_self _
  | judging bytes index decodings entry rest =>
      simp only [step]
      cases entry.open bytes with
      | abandoned | unreadable fault => exact Nat.succ_pos _
      | opened e =>
          dsimp only
          split
          · split
            · exact Nat.succ_pos _
            · cases i.judgeContents e with
              | decided outcome => exact Nat.succ_pos _
              | passed => exact Nat.lt_succ_self _
          · exact Nat.lt_succ_self _
  | ended outcome => exact absurd rfl (ht outcome)

end Task

end VendorScreen
