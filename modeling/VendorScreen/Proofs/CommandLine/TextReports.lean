import VendorScreen.Proofs.CommandLine.Agreement
import VendorScreen.Proofs.CommandLine.Lines
import VendorScreen.Proofs.Dex.Streams
import VendorScreen.Proofs.Query.Listing
import VendorScreen.Proofs.Query.SizeLimit
import VendorScreen.Proofs.Text.Controls
import VendorScreen.Proofs.Zip.Bodies

namespace VendorScreen

/-!
# Reports in text

A report in text is a line of three fields. Whoever makes an archive chooses names in it, its magic
numbers and its damage, and all of these can reach the last field. There they are quoted or written
as numbers, so no archive can end the line, add a field or send a control character.
-/

open Text

namespace Zip

theorem Malformation.isControlFree_message (cause : Malformation) :
    IsControlFree cause.message := by
  cases cause <;> decide

theorem Limitation.isControlFree_message (cause : Limitation) : IsControlFree cause.message := by
  cases cause <;> decide

theorem Fault.isControlFree_message (fault : Fault) : IsControlFree fault.message := by
  cases fault with
  | malformed cause =>
      exact isControlFree_append.mpr ⟨by decide, cause.isControlFree_message⟩
  | unsupported cause =>
      exact isControlFree_append.mpr ⟨by decide, cause.isControlFree_message⟩
  | endOfBytes => decide

/-- A failure while an entry is read is one of three. -/
theorem OpenEntry.isControlFree_of_drain {e : OpenEntry} {reason : String}
    (h : e.source.drain = .error reason) : IsControlFree reason := by
  have hchecked (entry : Entry) (bytes : ByteArray)
      (h : (checked entry bytes).drain = .error reason) : reason = "Invalid checksum" := by
    rw [checked, ByteSource.drain_ofBytes] at h
    split_ifs at h
    simpa [eq_comm] using h
  have hreason : reason ∈ ["Invalid checksum", "incomplete deflate stream",
      "corrupt deflate stream"] := by
    unfold source at h
    cases hmethod : e.method with
    | stored =>
        simp only [hmethod] at h
        simp [hchecked _ _ h]
    | deflated =>
        simp only [hmethod] at h
        cases hnext : (Deflate.inflate e.compressed).next with
        | ok _ =>
            simp only [hnext] at h
            simp [hchecked _ _ h]
        | error fault =>
            cases fault <;>
              simp only [hnext, ByteSource.drain_ofBytes, Except.error.injEq] at h <;>
              simp [← h]
  exact (by decide : ∀ reason ∈ ["Invalid checksum", "incomplete deflate stream",
    "corrupt deflate stream"], IsControlFree reason) reason hreason

end Zip

namespace Dex

theorem Place.isControlFree_label (place : Place) : IsControlFree place.label := by
  cases place <;> decide

theorem isControlFree_paddedHex (width n : ℕ) : IsControlFree (paddedHex width n) := by
  rw [paddedHex, isControlFree_ofList]
  intro c hc
  rcases List.mem_append.mp hc with hc | hc
  · rw [List.eq_of_mem_replicate hc]
    decide
  · exact not_isControl_of_mem_toDigits (by decide) le_rfl hc

/-- A fault is told without control characters, unless a source tells it with some. -/
theorem Fault.isControlFree_message {fault : Fault}
    (hsource : ∀ reason, fault = .source reason → IsControlFree reason) :
    IsControlFree fault.message := by
  have hnumber (width n : ℕ) := isControlFree_paddedHex width n
  cases fault with
  | source reason =>
      exact isControlFree_append.mpr ⟨by decide, hsource reason rfl⟩
  | tooShort size =>
      unfold message
      simp only [isControlFree_append, isControlFree_toString]
      decide
  | badMagic magic =>
      have hmagic : IsControlFree (", ".intercalate (magic.map fun b => paddedHex 2 b.toNat)) := by
        apply isControlFree_intercalate (by decide)
        intro text htext
        obtain ⟨byte, -, rfl⟩ := List.mem_map.mp htext
        exact hnumber 2 byte.toNat
      unfold message
      simp only [isControlFree_append, hmagic]
      decide
  | unsupportedEndian tag =>
      unfold message
      simp only [isControlFree_append, hnumber]
      decide
  | outOfBounds place offset =>
      unfold message
      simp only [isControlFree_append, hnumber, place.isControlFree_label]
      decide
  | indexOutOfRange place index size =>
      unfold message
      simp only [isControlFree_append, isControlFree_toString, place.isControlFree_label]
      decide
  | badString offset =>
      unfold message
      simp only [isControlFree_append, hnumber]
      decide
  | badDescriptor descriptor =>
      exact isControlFree_append.mpr ⟨by decide, isControlFree_quote descriptor⟩

theorem isControlFree_of_decode {e : Zip.OpenEntry} {size : ℕ} {fault : Fault}
    (h : decode e.source size = .error fault) : IsControlFree fault.message := by
  apply Fault.isControlFree_message
  rintro reason rfl
  unfold decode at h
  cases hdrain : e.source.drain with
  | error cause =>
      simp only [hdrain, Except.error.injEq, Fault.source.injEq] at h
      exact h ▸ e.isControlFree_of_drain hdrain
  | ok bytes =>
      simp only [hdrain] at h
      exact absurd h (classNames_ne_source bytes reason)

end Dex

/-- Every name in a verdict is quoted. -/
theorem Verdict.isControlFree_line (verdict : Verdict) : IsControlFree verdict.line := by
  cases verdict with
  | skipped | identifierMatch | clean => decide
  | componentMatch | neutralLibrary | oversizedClassContainer | classMatch =>
      unfold line
      simp only [isControlFree_append, isControlFree_quote, isControlFree_toString]
      decide

theorem ArchiveFault.isControlFree_message (fault : ArchiveFault) :
    IsControlFree fault.message := by
  cases fault with
  | unopened fault =>
      cases fault with
      | endOfBytes => decide
      | malformed | unsupported =>
          exact isControlFree_append.mpr ⟨by decide, Zip.Fault.isControlFree_message _⟩
  | unreadableEntry index fault =>
      unfold message
      simp only [isControlFree_append, isControlFree_toString,
        fault.isControlFree_message]
      decide

namespace Inspector

open CommandLine

variable {i : Inspector} {bytes : ByteArray} {index : ℕ} {entry : Zip.Entry} {cause : QueryError}

/-- A walk finds nothing, or ends with what one of the entries settles. -/
theorem clean_or_settled (i : Inspector) (bytes : ByteArray) (entries : List Zip.Entry) :
    (i.inspectFrom .never bytes 0 0 entries).outcome = .ok .clean ∨
      ∃ k, ∃ entry ∈ entries,
        i.Settles bytes k entry (i.inspectFrom .never bytes 0 0 entries).outcome := by
  rcases IsEarliest.exists_or_forall_not (i.IsDecisive bytes) entries with
    ⟨k, entry, hfirst⟩ | hnone
  · obtain ⟨outcome, hsettles⟩ := settles_of_isDecisive (0 + k) hfirst.2.1
    rw [outcome_inspectFrom_of_isEarliest hfirst hsettles]
    exact .inr ⟨0 + k, entry, hfirst.mem, hsettles⟩
  · exact .inl (outcome_inspectFrom_of_forall_not hnone)

/-- An inspection has a verdict, or the archive did not open, or one of its entries ended it. -/
theorem outcome_inspect_cases (i : Inspector) (bytes : ByteArray) :
    (∃ verdict, (i.inspect .never bytes).outcome = .ok verdict) ∨
      (∃ fault, (i.inspect .never bytes).outcome = .error (.archive (.unopened fault))) ∨
      ∃ archive k, Zip.Archive.open bytes = .ok archive ∧ ∃ entry ∈ archive.entries,
        i.Settles bytes k entry (i.inspect .never bytes).outcome := by
  cases hopen : Zip.Archive.open bytes with
  | error fault => exact .inr (.inl ⟨fault, by simp [inspect, hopen]⟩)
  | ok archive =>
      rcases i.outcome_inspect_of_open .never hopen with ⟨entry, -, hmarked⟩ | ⟨-, hwalk⟩
      · exact .inl ⟨_, hmarked⟩
      · rw [hwalk]
        rcases i.clean_or_settled bytes archive.entries with hclean | ⟨k, entry, hentry, hsettles⟩
        · exact .inl ⟨_, hclean⟩
        · exact .inr (.inr ⟨archive, k, rfl, entry, hentry, hsettles⟩)

theorem isControlFree_errorText_archive (fault : ArchiveFault) :
    IsControlFree (Report.errorText (.archive fault)) := by
  refine isControlFree_append.mpr ⟨?_, fault.isControlFree_message⟩
  exact (by decide : IsControlFree ("archive-format" ++ ": "))

theorem Settles.isControlFree_errorText (hdecoder : i.decoder = Dex.decode)
    (h : i.Settles bytes index entry (.error cause)) :
    IsControlFree (Report.errorText cause) := by
  cases h with
  | unreadable hopen => exact isControlFree_errorText_archive _
  | undecodable hopen hname hsize hdecode =>
      rw [hdecoder] at hdecode
      refine isControlFree_append.mpr ⟨?_, Dex.isControlFree_of_decode hdecode⟩
      exact (by decide : IsControlFree ("decode" ++ ": "))

theorem isControlFree_errorText_of_inspect (hdecoder : i.decoder = Dex.decode)
    (h : (i.inspect .never bytes).outcome = .error cause) :
    IsControlFree (Report.errorText cause) := by
  rcases i.outcome_inspect_cases bytes with
    ⟨verdict, hverdict⟩ | ⟨fault, hfault⟩ | ⟨archive, k, -, entry, -, hsettles⟩
  · simp [h] at hverdict
  · rw [h, Outcome.error.injEq] at hfault
    rw [hfault]
    exact isControlFree_errorText_archive _
  · rw [h] at hsettles
    exact hsettles.isControlFree_errorText hdecoder

theorem exists_isTrap_of_abandoned (h : (i.inspect .never bytes).outcome = .abandoned) :
    ∃ archive, Zip.Archive.open bytes = .ok archive ∧
      ∃ entry ∈ archive.entries, Zip.IsTrap bytes entry := by
  rcases i.outcome_inspect_cases bytes with
    ⟨verdict, hverdict⟩ | ⟨fault, hfault⟩ | ⟨archive, k, hopen, entry, hentry, hsettles⟩
  · simp [h] at hverdict
  · simp [h] at hfault
  · rw [h] at hsettles
    cases hsettles with
    | abandoned hopened =>
        exact ⟨archive, hopen, entry, hentry, (Zip.Entry.open_eq_abandoned_iff ..).mp hopened⟩

end Inspector

namespace CommandLine

open Files (Tree)

/-- The text is a single line of three fields, the last of which holds no control character. -/
def IsReportLine (target : String) (flagged : Bool) (text : String) : Prop :=
  ∃ line detail : List Char, text.toList.splitOn '\n' = [line, []] ∧
    line.splitOn '\t' = [target.toList, (if flagged then "true" else "false").toList, detail] ∧
    ∀ c ∈ detail, ¬ IsControl c

/-- How the command ends that reports on the archive in the bytes: with a line that gives the answer
of the query, or not at all where opening one of the entries is given up. -/
inductive ReportsInLine (target : String) (bytes : ByteArray) (q : QueryReport) : Ending → Prop
  | printed {flagged : Bool} {text : String} (hanswer : q.isFlagged? = some flagged)
      (hline : IsReportLine target flagged text) : ReportsInLine target bytes q (.printed text)
  | abandoned {archive : Zip.Archive} {entry : Zip.Entry}
      (hopen : Zip.Archive.open bytes = .ok archive) (hentry : entry ∈ archive.entries)
      (htrap : Zip.IsTrap bytes entry) : ReportsInLine target bytes q .abandoned

theorem Report.isReportLine_write {r : Report} (htarget : IsControlFree r.target)
    (hdetail : IsControlFree r.detail) :
    IsReportLine r.target r.isFlagged (write [r] .text) := by
  have hword : IsControlFree (if r.isFlagged then "true" else "false") := by
    cases r.isFlagged <;> decide
  have hfeed : IsControl '\n' := by decide
  have htab : IsControl '\t' := by decide
  have hunbroken : IsUnbroken r.line := by
    simp only [IsUnbroken, line, String.toList_append, List.mem_append, not_or]
    refine ⟨⟨⟨⟨?_, by decide⟩, ?_⟩, by decide⟩, ?_⟩
    · exact not_mem_of_isControlFree htarget hfeed
    · exact not_mem_of_isControlFree hword hfeed
    · exact not_mem_of_isControlFree hdetail hfeed
  have hfields : r.line.toList.splitOn '\t' =
      [r.target.toList, (if r.isFlagged then "true" else "false").toList, r.detail.toList] := by
    have htext : r.line.toList = r.target.toList ++
        '\t' :: ((if r.isFlagged then "true" else "false").toList ++ '\t' :: r.detail.toList) := by
      simp [line]
    rw [htext, List.splitOn_append_cons_self_of_not_mem (not_mem_of_isControlFree htarget htab),
      List.splitOn_append_cons_self_of_not_mem (not_mem_of_isControlFree hword htab),
      List.splitOn_eq_singleton (not_mem_of_isControlFree hdetail htab)]
  refine ⟨r.line.toList, r.detail.toList, ?_, hfields, hdetail⟩
  exact splitOn_lines_of_isUnbroken (List.forall_mem_singleton.mpr hunbroken)

theorem Report.isControlFree_detail {target : String} {q : QueryReport} {r : Report}
    (h : ofQuery? target q = some r)
    (herrors : ∀ cause, q.outcome = .error cause → IsControlFree (errorText cause)) :
    IsControlFree r.detail := by
  unfold ofQuery? at h
  cases houtcome : q.outcome with
  | abandoned => simp [houtcome] at h
  | ok verdict =>
      simp only [houtcome, Option.some.injEq] at h
      subst h
      exact verdict.isControlFree_line
  | error cause =>
      simp only [houtcome, Option.some.injEq] at h
      subst h
      exact herrors cause houtcome

theorem reportsInLine {i : Inspector} {target : String} (hdecoder : i.decoder = Dex.decode)
    (htarget : IsControlFree target) (bytes : ByteArray) :
    ReportsInLine target bytes (i.inspect .never bytes)
      (.ofReport? .text (Report.ofQuery? target (i.inspect .never bytes))) := by
  cases hreport : Report.ofQuery? target (i.inspect .never bytes) with
  | none =>
      have habandoned := (Report.ofQuery?_eq_none_iff ..).mp hreport
      obtain ⟨archive, hopen, entry, hentry, htrap⟩ :=
        Inspector.exists_isTrap_of_abandoned habandoned
      exact .abandoned hopen hentry htrap
  | some r =>
      have hdetail := Report.isControlFree_detail hreport fun cause =>
        Inspector.isControlFree_errorText_of_inspect hdecoder
      obtain rfl := Report.target_of_ofQuery? hreport
      exact .printed (Report.isFlagged?_of_ofQuery? hreport)
        (Report.isReportLine_write htarget hdetail)

/-- Whatever the bytes of an archive are, the report on it in text is a line of three fields: its
path, the answer, and a last one without control characters. There is no report only where one of
its entries is a trap. -/
theorem archive_reported_in_one_line {path : String} (hpath : IsControlFree path)
    (bytes : ByteArray) :
    (∀ (w : Watchlist) (sizeLimit : ℕ),
      let q := Inspector.inspect ⟨w, sizeLimit, Dex.decode⟩ .never bytes
      ReportsInLine path bytes q (.ofReport? .text (Report.ofQuery? path q))) ∧
    ∀ (files : Tree) (env : Environment) (i : Invocation) (settings : Settings),
      i.settings env = .ok settings → files.read path = .ok bytes →
        ReportsInLine path bytes ((inspectorOf settings).inspect .never bytes)
          (i.runAs files env (.inspect path .text)) := by
  constructor
  · intro w sizeLimit
    exact reportsInLine rfl hpath bytes
  · intro files env i settings hsettings hread
    have hrun : i.runAs files env (.inspect path .text) = .ofReport? .text
        (Report.ofQuery? path ((inspectorOf settings).inspect .never bytes)) :=
      inspect_of_read hsettings hread .text
    rw [hrun]
    exact reportsInLine rfl hpath bytes

/-- The bytes of `firebase-`, a line feed, a tab and an escape character. -/
def forgingName : List UInt8 :=
  [0x66, 0x69, 0x72, 0x65, 0x62, 0x61, 0x73, 0x65, 0x2d, 0x0a, 0x09, 0x1b]

/-- An archive whose only name would end the line and add a field. -/
def forgingArchive : ByteArray :=
  Inspector.containersArchive [emptyHeader 0 0 0 forgingName (by decide)]

/-- The name is told with escapes. -/
theorem archive_reported_in_one_line_forging :
    IsControlFree "/a.apk" ∧
    manifestInvocation.settings noVariables = .ok standardSettings ∧
    (archiveFiles forgingArchive).read "/a.apk" = .ok forgingArchive ∧
    manifestInvocation.runAs (archiveFiles forgingArchive) noVariables (.inspect "/a.apk" .text) =
      .printed ("/a.apk\tfalse\tNeutralLibrary \x7b entry: " ++
        "\"firebase-\\n\\t\\u\x7b1b\x7d\" \x7d\n") ∧
    ReportsInLine "/a.apk" forgingArchive
      ((inspectorOf standardSettings).inspect .never forgingArchive)
      (manifestInvocation.runAs (archiveFiles forgingArchive) noVariables
        (.inspect "/a.apk" .text)) := by
  have hpath : IsControlFree "/a.apk" := by decide
  have hread := read_archiveFiles forgingArchive
  have hreport : Ending.ofReport? .text (Report.ofQuery? "/a.apk"
      ((inspectorOf standardSettings).inspect .never forgingArchive)) =
      .printed ("/a.apk\tfalse\tNeutralLibrary \x7b entry: " ++
        "\"firebase-\\n\\t\\u\x7b1b\x7d\" \x7d\n") := by
    decide +kernel
  refine ⟨hpath, rfl, hread, ?_, ?_⟩
  · rw [← hreport]
    have hsettings : (manifestInvocation.withCommand (.inspect "/a.apk" .text)).settings
        noVariables = .ok standardSettings := rfl
    exact inspect_of_read hsettings hread .text
  · exact (archive_reported_in_one_line hpath forgingArchive).2 _ _ _ standardSettings rfl hread

end CommandLine

end VendorScreen
