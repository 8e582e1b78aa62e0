import VendorScreen.CommandLine.Run
import VendorScreen.Proofs.Query.Decision

namespace VendorScreen

/-!
# Listed class names and verdicts

The listing of class names goes through every entry of an archive, and stops at none but those it
cannot read. The inspection stops at the first entry that settles anything. As far as both of them
get, they see the same names.
-/

namespace CommandLine

variable {bytes : ByteArray} {index : ℕ} {entry : Zip.Entry} {entries rest : List Zip.Entry}
  {done names : List String}

/-- The entry can be read, and these are the class names in it. -/
inductive Contributes (bytes : ByteArray) (entry : Zip.Entry) : List String → Prop
  | other {e : Zip.OpenEntry} (hopen : entry.open bytes = .opened e)
      (hname : isClassContainer entry.name = false) : Contributes bytes entry []
  | container {e : Zip.OpenEntry} {names : List String} (hopen : entry.open bytes = .opened e)
      (hname : isClassContainer entry.name = true)
      (hdecode : Dex.decode e.source entry.size = .ok names) : Contributes bytes entry names

/-- How a listing ends at an entry that cannot be read, whatever was listed before it. -/
inductive Blocks (bytes : ByteArray) (index : ℕ) (entry : Zip.Entry) :
    Outcome String (List String) → Prop
  | abandoned (hopen : entry.open bytes = .abandoned) : Blocks bytes index entry .abandoned
  | unreadable {fault : Zip.Fault} (hopen : entry.open bytes = .unreadable fault) :
      Blocks bytes index entry (.error (ArchiveFault.unreadableEntry index fault).message)
  | undecodable {e : Zip.OpenEntry} {fault : Dex.Fault} (hopen : entry.open bytes = .opened e)
      (hname : isClassContainer entry.name = true)
      (hdecode : Dex.decode e.source entry.size = .error fault) :
      Blocks bytes index entry (.error ("Failed to decode " ++ entry.name))

theorem contributes_or_blocks (bytes : ByteArray) (index : ℕ) (entry : Zip.Entry) :
    (∃ names, Contributes bytes entry names) ∨
      ∃ ending, Blocks bytes index entry ending ∧ ∀ names, ending ≠ .ok names := by
  cases hopen : entry.open bytes with
  | abandoned => exact .inr ⟨_, .abandoned hopen, by simp⟩
  | unreadable fault => exact .inr ⟨_, .unreadable hopen, by simp⟩
  | opened e =>
      cases hname : isClassContainer entry.name with
      | false => exact .inl ⟨_, .other hopen hname⟩
      | true =>
          cases hdecode : Dex.decode e.source entry.size with
          | error fault => exact .inr ⟨_, .undecodable hopen hname hdecode, by simp⟩
          | ok names => exact .inl ⟨_, .container hopen hname hdecode⟩

theorem Contributes.exists_opened (h : Contributes bytes entry names) :
    ∃ e, entry.open bytes = .opened e := by
  cases h with
  | other hopen hname => exact ⟨_, hopen⟩
  | container hopen hname hdecode => exact ⟨_, hopen⟩

theorem Contributes.decode_eq {e : Zip.OpenEntry} (h : Contributes bytes entry names)
    (hopen : entry.open bytes = .opened e) (hname : isClassContainer entry.name = true) :
    Dex.decode e.source entry.size = .ok names := by
  cases h with
  | other hopen' hname' => simp [hname] at hname'
  | container hopen' hname' hdecode =>
      rw [hopen, Zip.Opening.opened.injEq] at hopen'
      rw [hopen', hdecode]

theorem Contributes.eq_nil (h : Contributes bytes entry names)
    (hname : isClassContainer entry.name = false) : names = [] := by
  cases h with
  | other hopen' hname' => rfl
  | container hopen' hname' hdecode => simp [hname] at hname'

theorem Contributes.unique {names' : List String} (h : Contributes bytes entry names)
    (h' : Contributes bytes entry names') : names = names' := by
  cases h' with
  | other hopen hname => exact h.eq_nil hname
  | container hopen hname hdecode =>
      rw [h.decode_eq hopen hname] at hdecode
      exact Except.ok.inj hdecode

theorem classesFrom_of_contributes (h : Contributes bytes entry names) :
    classesFrom bytes index done (entry :: rest) =
      classesFrom bytes (index + 1) (done ++ names) rest := by
  cases h with
  | other hopen hname => simp [classesFrom, hopen, hname]
  | container hopen hname hdecode => simp [classesFrom, hopen, hname, hdecode]

theorem classesFrom_of_blocks {ending : Outcome String (List String)}
    (h : Blocks bytes index entry ending) :
    classesFrom bytes index done (entry :: rest) = ending := by
  cases h with
  | abandoned hopen => simp [classesFrom, hopen]
  | unreadable hopen => simp [classesFrom, hopen]
  | undecodable hopen hname hdecode => simp [classesFrom, hopen, hname, hdecode]

theorem classesFrom_of_forall₂ {parts : List (List String)}
    (h : List.Forall₂ (Contributes bytes) entries parts) :
    classesFrom bytes index done entries = .ok (done ++ parts.flatten) := by
  induction h generalizing index done with
  | nil => simp [classesFrom]
  | cons hpart _ ih =>
      rw [classesFrom_of_contributes hpart, ih]
      simp

theorem forall₂_of_classesFrom (h : classesFrom bytes index done entries = .ok names) :
    ∃ parts, List.Forall₂ (Contributes bytes) entries parts ∧ names = done ++ parts.flatten := by
  induction entries generalizing index done with
  | nil =>
      refine ⟨[], .nil, ?_⟩
      simpa [classesFrom, eq_comm] using h
  | cons entry rest ih =>
      rcases contributes_or_blocks bytes index entry with ⟨part, hpart⟩ | ⟨ending, hblock, hne⟩
      · rw [classesFrom_of_contributes hpart] at h
        obtain ⟨parts, hparts, rfl⟩ := ih h
        exact ⟨part :: parts, .cons hpart hparts, by simp⟩
      · rw [classesFrom_of_blocks hblock] at h
        exact absurd h (hne names)

/-- The endings of an inspection and of a listing that both stop at what they cannot read. -/
inductive EndAlike (path : String) :
    Outcome QueryError Verdict → Outcome String (List String) → Prop
  | abandoned : EndAlike path .abandoned .abandoned
  | unopened {fault : Zip.Fault} : EndAlike path (.error (.archive (.unopened fault)))
      (.error ("Failed to open archive: " ++ path))
  | unreadable {cause : QueryError} {index : ℕ} {fault : Zip.Fault}
      (hcause : cause = .archive (.unreadableEntry index fault)) :
      EndAlike path (.error cause) (.error cause.message)
  | undecodable {fault : Dex.Fault} {name : String} (hname : isClassContainer name = true) :
      EndAlike path (.error (.decode fault)) (.error ("Failed to decode " ++ name))

theorem EndAlike.exists_message {path : String} {cause : QueryError}
    {ending : Outcome String (List String)} (h : EndAlike path (.error cause) ending) :
    ∃ message, ending = .error message := by
  cases h with
  | unopened => exact ⟨_, rfl⟩
  | unreadable hcause => exact ⟨_, rfl⟩
  | undecodable hname => exact ⟨_, rfl⟩

theorem exists_archive_of_classNames {path : String} (h : classNames path bytes = .ok names) :
    ∃ archive parts, Zip.Archive.open bytes = .ok archive ∧
      List.Forall₂ (Contributes bytes) archive.entries parts ∧ names = parts.flatten := by
  unfold classNames at h
  cases hopen : Zip.Archive.open bytes with
  | error fault => simp [hopen] at h
  | ok archive =>
      rw [hopen] at h
      obtain ⟨parts, hparts, hnames⟩ := forall₂_of_classesFrom h
      exact ⟨archive, parts, rfl, hparts, hnames⟩

theorem classNames_of_open {archive : Zip.Archive} (path : String)
    (h : Zip.Archive.open bytes = .ok archive) :
    classNames path bytes = classesFrom bytes 0 [] archive.entries := by
  simp only [classNames, h]

end CommandLine

namespace Inspector

open CommandLine

variable {i : Inspector} {bytes : ByteArray} {index decodings : ℕ} {entry : Zip.Entry}
  {entries : List Zip.Entry} {names : List String}

/-- The verdicts that go with a complete list of the class names in some entries, none of which
carries the marker. -/
inductive GoesWith (i : Inspector) (entries : List Zip.Entry) (names : List String) :
    Verdict → Prop
  | oversized {entry : Zip.Entry} (hmem : entry ∈ entries)
      (hname : isClassContainer entry.name = true) (hsize : i.sizeLimit < entry.size) :
      GoesWith i entries names (.oversizedClassContainer entry.name entry.size)
  | classMatch {entry : Zip.Entry} {className : String} (hmem : entry ∈ entries)
      (hname : isClassContainer entry.name = true) (hsize : entry.size ≤ i.sizeLimit)
      (hfirst : names.find? i.watchlist.isFlagged = some className) :
      GoesWith i entries names (.classMatch entry.name className)
  | clean (hsizes : ∀ entry ∈ entries, isClassContainer entry.name = true →
        entry.size ≤ i.sizeLimit)
      (hnone : ∀ name ∈ names, i.watchlist.isFlagged name = false) :
      GoesWith i entries names .clean

theorem find?_append_of_forall_not {w : Watchlist} {part : List String}
    (h : ∀ name ∈ part, w.isFlagged name = false) :
    (part ++ names).find? w.isFlagged = names.find? w.isFlagged := by
  have hpart : part.find? w.isFlagged = none := by
    rw [List.find?_eq_none]
    intro name hname
    simp [h name hname]
  rw [List.find?_append, hpart, Option.none_or]

/-- An entry that is passed and has no flagged name in it changes nothing. -/
theorem GoesWith.cons {part : List String} {verdict : Verdict}
    (h : i.GoesWith entries names verdict)
    (hsize : isClassContainer entry.name = true → entry.size ≤ i.sizeLimit)
    (hpart : ∀ name ∈ part, i.watchlist.isFlagged name = false) :
    i.GoesWith (entry :: entries) (part ++ names) verdict := by
  cases h with
  | oversized hmem hname hlimit => exact .oversized (List.mem_cons_of_mem _ hmem) hname hlimit
  | classMatch hmem hname hlimit hfirst =>
      refine .classMatch (List.mem_cons_of_mem _ hmem) hname hlimit ?_
      rw [find?_append_of_forall_not hpart, hfirst]
  | clean hsizes hnone =>
      refine .clean ?_ ?_
      · intro entry' hmem
        rcases List.mem_cons.mp hmem with rfl | hmem
        · exact hsize
        · exact hsizes entry' hmem
      · intro name hmem
        rcases List.mem_append.mp hmem with hmem | hmem
        · exact hpart name hmem
        · exact hnone name hmem

theorem Passes.size_le (h : i.Passes bytes entry) (hname : isClassContainer entry.name = true) :
    entry.size ≤ i.sizeLimit := by
  cases h with
  | other hopen hname' => simp [hname] at hname'
  | unmatched hopen hname' hsize hdecode hnone => exact hsize

section sameDecoder

variable (hdecoder : i.decoder = Dex.decode)
include hdecoder

theorem Passes.exists_contributes (h : i.Passes bytes entry) :
    ∃ part, Contributes bytes entry part ∧ ∀ name ∈ part, i.watchlist.isFlagged name = false := by
  cases h with
  | other hopen hname => exact ⟨[], .other hopen hname, by simp⟩
  | unmatched hopen hname hsize hdecode hnone =>
      rw [hdecoder] at hdecode
      refine ⟨_, .container hopen hname hdecode, ?_⟩
      intro name hmem
      simpa using hnone name hmem

/-- An entry that settles something and can be read gives its archive a verdict. -/
theorem Settles.goesWith {outcome : Outcome QueryError Verdict} {part : List String}
    (h : i.Settles bytes index entry outcome) (hpart : Contributes bytes entry part) :
    ∃ verdict, outcome = .ok verdict ∧ i.GoesWith (entry :: entries) (part ++ names) verdict := by
  obtain ⟨e, he⟩ := hpart.exists_opened
  cases h with
  | abandoned hopen => simp [he] at hopen
  | unreadable hopen => simp [he] at hopen
  | oversized hopen hname hsize => exact ⟨_, rfl, .oversized List.mem_cons_self hname hsize⟩
  | undecodable hopen hname hsize hdecode =>
      rw [hdecoder, hpart.decode_eq hopen hname] at hdecode
      simp at hdecode
  | classMatch hopen hname hsize hdecode hfirst =>
      rw [hdecoder, hpart.decode_eq hopen hname, Except.ok.injEq] at hdecode
      refine ⟨_, rfl, .classMatch List.mem_cons_self hname hsize ?_⟩
      have hfind := (find?_eq_some_iff_isEarliest i.watchlist.isFlagged ..).mpr ⟨_, hfirst⟩
      rw [List.find?_append, hdecode, hfind, Option.some_or]

/-- An inspection ends with a verdict when a listing would get through, and the two agree. -/
theorem exists_goesWith_inspectFrom {parts : List (List String)}
    (h : List.Forall₂ (Contributes bytes) entries parts) :
    ∃ verdict, (i.inspectFrom .never bytes index decodings entries).outcome = .ok verdict ∧
      i.GoesWith entries parts.flatten verdict := by
  induction h generalizing index decodings with
  | nil => exact ⟨.clean, rfl, .clean (by simp) (by simp)⟩
  | @cons entry part rest parts hpart _ ih =>
      have hflag := StopFlag.never_apply (.beforeEntry index decodings)
      rcases i.settles_or_passes bytes index entry with ⟨outcome, hsettles⟩ | hpass
      · obtain ⟨calls, hreport⟩ := inspectFrom_of_settles hflag hsettles
        rw [hreport, List.flatten_cons]
        exact hsettles.goesWith hdecoder hpart
      · obtain ⟨calls, decodings', hwalk⟩ := inspectFrom_of_passes hflag hpass
        obtain ⟨verdict, houtcome, hverdict⟩ := @ih (index + 1) decodings'
        rw [hwalk, QueryReport.outcome_preceded, List.flatten_cons]
        obtain ⟨part', hpart', hnone⟩ := hpass.exists_contributes hdecoder
        obtain rfl := hpart.unique hpart'
        exact ⟨verdict, houtcome, hverdict.cons hpass.size_le hnone⟩

/-- Entries without anything decisive make up a complete list without a flagged name. -/
theorem exists_forall₂_of_forall_passes (h : ∀ entry ∈ entries, i.Passes bytes entry) :
    ∃ parts, List.Forall₂ (Contributes bytes) entries parts ∧
      ∀ name ∈ parts.flatten, i.watchlist.isFlagged name = false := by
  induction entries with
  | nil => exact ⟨[], .nil, by simp⟩
  | cons entry rest ih =>
      obtain ⟨part, hpart, hnone⟩ := (h entry List.mem_cons_self).exists_contributes hdecoder
      obtain ⟨parts, hparts, hrest⟩ := ih fun entry' hmem => h entry' (List.mem_cons_of_mem _ hmem)
      refine ⟨part :: parts, .cons hpart hparts, ?_⟩
      intro name hmem
      rw [List.flatten_cons] at hmem
      rcases List.mem_append.mp hmem with hmem | hmem
      · exact hnone name hmem
      · exact hrest name hmem

/-- An entry that leaves an inspection without a verdict ends a listing too. -/
theorem Settles.exists_blocks {outcome : Outcome QueryError Verdict} (path : String)
    (h : i.Settles bytes index entry outcome) (hnone : ∀ verdict, outcome ≠ .ok verdict) :
    ∃ ending, Blocks bytes index entry ending ∧ EndAlike path outcome ending := by
  cases h with
  | abandoned hopen => exact ⟨_, .abandoned hopen, .abandoned⟩
  | unreadable hopen => exact ⟨_, .unreadable hopen, .unreadable rfl⟩
  | undecodable hopen hname hsize hdecode =>
      rw [hdecoder] at hdecode
      exact ⟨_, .undecodable hopen hname hdecode, .undecodable hname⟩
  | oversized hopen hname hsize => exact absurd rfl (hnone _)
  | classMatch hopen hname hsize hdecode hfirst => exact absurd rfl (hnone _)

theorem endAlike_of_inspectFrom {done : List String} (path : String)
    (hnone : ∀ verdict,
      (i.inspectFrom .never bytes index decodings entries).outcome ≠ .ok verdict) :
    EndAlike path (i.inspectFrom .never bytes index decodings entries).outcome
      (classesFrom bytes index done entries) := by
  induction entries generalizing index decodings done with
  | nil => exact absurd rfl (hnone .clean)
  | cons entry rest ih =>
      have hflag := StopFlag.never_apply (.beforeEntry index decodings)
      rcases i.settles_or_passes bytes index entry with ⟨outcome, hsettles⟩ | hpass
      · obtain ⟨calls, hreport⟩ := inspectFrom_of_settles hflag hsettles
        rw [hreport] at hnone ⊢
        obtain ⟨ending, hblock, hends⟩ := hsettles.exists_blocks hdecoder path hnone
        rw [classesFrom_of_blocks hblock]
        exact hends
      · obtain ⟨calls, decodings', hwalk⟩ := inspectFrom_of_passes hflag hpass
        obtain ⟨part, hpart, -⟩ := hpass.exists_contributes hdecoder
        rw [hwalk, QueryReport.outcome_preceded] at hnone ⊢
        rw [classesFrom_of_contributes hpart]
        exact ih hnone

end sameDecoder

theorem forall_passes_of_clean
    (h : (i.inspectFrom .never bytes index decodings entries).outcome = .ok .clean) :
    ∀ entry ∈ entries, i.Passes bytes entry := by
  rcases IsEarliest.exists_or_forall_not (i.IsDecisive bytes) entries with
    ⟨k, entry, hfirst⟩ | hnone
  · obtain ⟨outcome, hsettles⟩ := settles_of_isDecisive (index + k) hfirst.2.1
    rw [outcome_inspectFrom_of_isEarliest hfirst hsettles] at h
    subst h
    cases hsettles
  · intro entry hmem
    exact passes_of_not_isDecisive (hnone entry hmem)

/-- The inspection of an archive that opens: the marker first, and then the entries. -/
theorem outcome_inspect_of_open (i : Inspector) (flag : StopFlag) {archive : Zip.Archive}
    (h : Zip.Archive.open bytes = .ok archive) :
    (∃ entry, archive.findName? neutralLibraryMarker = some entry ∧
        (i.inspect flag bytes).outcome = .ok (.neutralLibrary entry)) ∨
      (archive.findName? neutralLibraryMarker = none ∧
        i.inspect flag bytes = i.inspectFrom flag bytes 0 0 archive.entries) := by
  cases hmark : archive.findName? neutralLibraryMarker with
  | some entry => exact .inl ⟨entry, rfl, by simp only [inspect, h, hmark]⟩
  | none => exact .inr ⟨rfl, by simp only [inspect, h, hmark]⟩

theorem exists_archive_of_clean (h : (i.inspect .never bytes).outcome = .ok .clean) :
    ∃ archive, Zip.Archive.open bytes = .ok archive ∧
      (i.inspectFrom .never bytes 0 0 archive.entries).outcome = .ok .clean := by
  cases hopen : Zip.Archive.open bytes with
  | error fault => simp [inspect, hopen] at h
  | ok archive =>
      rcases i.outcome_inspect_of_open .never hopen with ⟨entry, -, hmarked⟩ | ⟨-, hwalk⟩
      · simp [hmarked] at h
      · exact ⟨archive, rfl, hwalk ▸ h⟩

theorem endAlike_classNames (hdecoder : i.decoder = Dex.decode) (path : String)
    (hnone : ∀ verdict, (i.inspect .never bytes).outcome ≠ .ok verdict) :
    EndAlike path (i.inspect .never bytes).outcome (classNames path bytes) := by
  cases hopen : Zip.Archive.open bytes with
  | error fault =>
      simp only [inspect, classNames, hopen]
      exact .unopened
  | ok archive =>
      rcases i.outcome_inspect_of_open .never hopen with ⟨entry, -, hmarked⟩ | ⟨-, hwalk⟩
      · exact absurd hmarked (hnone _)
      · rw [hwalk] at hnone ⊢
        rw [classNames_of_open path hopen]
        exact endAlike_of_inspectFrom hdecoder path hnone

end Inspector

namespace CommandLine

/-- A complete list of the class names goes with a verdict: that of a marker entry, of an oversized
container, of the first flagged name of the list, or none of these. A clean archive has a complete
list without a flagged name. An inspection without a verdict and the listing end alike, and so does
the command. -/
theorem listing_agrees_with_inspection (w : Watchlist) (sizeLimit : ℕ) (path : String)
    (bytes : ByteArray) :
    let i : Inspector := ⟨w, sizeLimit, Dex.decode⟩
    let outcome := (i.inspect .never bytes).outcome
    (∀ names, classNames path bytes = .ok names →
      ∃ archive, Zip.Archive.open bytes = .ok archive ∧
        ((∃ entry, archive.findName? neutralLibraryMarker = some entry ∧
            outcome = .ok (.neutralLibrary entry)) ∨
          archive.findName? neutralLibraryMarker = none ∧
            ∃ verdict, outcome = .ok verdict ∧ i.GoesWith archive.entries names verdict)) ∧
    (outcome = .ok .clean →
      ∃ names, classNames path bytes = .ok names ∧ ∀ name ∈ names, w.isFlagged name = false) ∧
    ((∀ verdict, outcome ≠ .ok verdict) → EndAlike path outcome (classNames path bytes)) ∧
    (∀ cause, outcome = .error cause →
      ∃ message, classNames path bytes = .error message ∧
        ∀ files, openArchive files path = .ok bytes → classes files path = .failed message) := by
  intro i outcome
  refine ⟨?_, ?_, ?_, ?_⟩
  · intro names h
    obtain ⟨archive, parts, hopen, hparts, rfl⟩ := exists_archive_of_classNames h
    refine ⟨archive, hopen, ?_⟩
    rcases i.outcome_inspect_of_open .never hopen with hmarked | ⟨hmark, hwalk⟩
    · exact .inl hmarked
    · refine .inr ⟨hmark, ?_⟩
      simp only [outcome, hwalk]
      exact Inspector.exists_goesWith_inspectFrom rfl hparts
  · intro hclean
    obtain ⟨archive, hopen, hwalk⟩ := Inspector.exists_archive_of_clean hclean
    have hpasses := Inspector.forall_passes_of_clean hwalk
    obtain ⟨parts, hparts, hnone⟩ := Inspector.exists_forall₂_of_forall_passes rfl hpasses
    refine ⟨parts.flatten, ?_, hnone⟩
    rw [classNames_of_open path hopen, classesFrom_of_forall₂ hparts, List.nil_append]
  · exact Inspector.endAlike_classNames rfl path
  · intro cause hcause
    have hends : EndAlike path outcome (classNames path bytes) := by
      apply Inspector.endAlike_classNames rfl path
      intro verdict hverdict
      rw [show (i.inspect .never bytes).outcome = .error cause from hcause] at hverdict
      cases hverdict
    rw [hcause] at hends
    obtain ⟨message, hmessage⟩ := hends.exists_message
    refine ⟨message, hmessage, ?_⟩
    intro files hread
    simp only [classes, hread, hmessage]

end CommandLine

end VendorScreen
