import VendorScreen.Proofs.Batch.Interleaving
import VendorScreen.Proofs.Catalogue
import VendorScreen.Proofs.CommandLine.PrintedReports
import VendorScreen.Proofs.Steps

namespace VendorScreen

/-!
# Commands that agree

The packages are listed by one command, and asked about one by one by two others: one keeps the
flagged ones, one reports on those that it is given. A fourth command judges an archive on its own.
What they print fits together, and whether they fail is decided by the files and the settings alone.
-/

namespace CommandLine

open Files (Tree)

namespace Invocation

def withCommand (i : Invocation) (command : Command) : Invocation := { i with command }

def runAs (i : Invocation) (files : Tree) (env : Environment) (command : Command) : Ending :=
  (i.withCommand command).run files env

/-- The packages that are listed where the catalogue is what the files hold. -/
def records (i : Invocation) (env : Environment) (c : Catalogue) : List PackageRecord :=
  Inventory.kept (i.hostIdentifier? env) (c.packages.map ManifestPackage.installed)

def names (i : Invocation) (env : Environment) (c : Catalogue) : List String :=
  (i.records env c).map PackageRecord.packageName

end Invocation

namespace Report

variable {target target' : String} {q q' : QueryReport} {r : Report}

theorem target_of_ofQuery? (h : ofQuery? target q = some r) : r.target = target := by
  unfold ofQuery? at h
  split at h <;> cases h <;> rfl

theorem isFlagged?_of_ofQuery? (h : ofQuery? target q = some r) :
    q.isFlagged? = some r.isFlagged := by
  unfold ofQuery? at h
  unfold QueryReport.isFlagged?
  cases houtcome : q.outcome with
  | abandoned => simp [houtcome] at h
  | ok v | error cause =>
      simp only [houtcome, Option.some.injEq] at h
      rw [← h]
      rfl

end Report

namespace Finder

variable {f : Finder} {id : String} {ids : List String} {r : Report} {reports : List Report}

theorem ask_of_report? (hpatient : f.waiting.IsPatient) (h : f.report? id = some r) :
    (f.inspector.ask f.host f.waiting id).value = some r.isFlagged := by
  have hflagged := Report.isFlagged?_of_ofQuery? h
  unfold Inspector.ask
  generalize f.waiting = w at hpatient
  cases w with
  | inLine => exact hflagged
  | apart isOverdue =>
      have hintime : isOverdue id (f.inspector.classify f.host .never id) = false := hpatient id _
      simp only [Waiting.answer, hintime, QueryReport.isFlaggedApart, hflagged, Bool.false_eq_true,
        if_false, Option.getD_some]

theorem mapM_report?_eq_some_iff :
    ids.mapM f.report? = some reports ↔
      List.Forall₂ (fun id r => f.report? id = some r) ids reports := by
  induction ids generalizing reports with
  | nil => cases reports <;> simp
  | cons id ids ih =>
      rw [List.mapM_cons]
      cases hreport : f.report? id with
      | none => simp [hreport, List.forall₂_cons_left_iff]
      | some r =>
          cases hrest : ids.mapM f.report? with
          | none => cases reports <;> simp [hreport, ← ih, hrest]
          | some rest => cases reports <;> simp [hreport, ← ih, hrest]

theorem exists_report?_eq_none (h : ids.mapM f.report? = none) :
    ∃ id ∈ ids, f.report? id = none := by
  induction ids with
  | nil => simp at h
  | cons id ids ih =>
      cases hreport : f.report? id with
      | none => exact ⟨id, List.mem_cons_self, hreport⟩
      | some r =>
          cases hrest : ids.mapM f.report? with
          | none =>
              obtain ⟨id', hid', hnone⟩ := ih hrest
              exact ⟨id', List.mem_cons_of_mem id hid', hnone⟩
          | some rest => simp [hreport, hrest] at h

section reports

variable (h : List.Forall₂ (fun id r => f.report? id = some r) ids reports)
include h

theorem map_target_of_reports : reports.map Report.target = ids := by
  induction h with
  | nil => rfl
  | cons hreport _ ih => rw [List.map_cons, Report.target_of_ofQuery? hreport, ih]

theorem report?_target_of_mem (hr : r ∈ reports) : f.report? r.target = some r := by
  induction h with
  | nil => cases hr
  | cons hreport _ ih =>
      rcases List.mem_cons.mp hr with rfl | hr
      · rw [Report.target_of_ofQuery? hreport]
        exact hreport
      · exact ih hr

/-- The flagged ones are those with a report that says yes. -/
theorem keepFlagged?_of_reports (hpatient : f.waiting.IsPatient) :
    f.inspector.keepFlagged? f.host f.waiting ids =
      some ((reports.filter Report.isFlagged).map Report.target) := by
  induction h with
  | nil => rfl
  | @cons id r ids reports hreport _ ih =>
      rw [Inspector.keepFlagged?_cons, ask_of_report? hpatient hreport, ih, List.filter_cons]
      cases hflagged : r.isFlagged with
      | false => simp
      | true => simp [Report.target_of_ofQuery? hreport]

end reports

end Finder

section opening

variable {files : Tree} {env : Environment} {i : Invocation} {f : Finder} {source : Source}
  {c : Catalogue} {settings : Settings}

theorem isPatient_waitingOf (s : Settings) : (waitingOf s).IsPatient := by
  unfold waitingOf
  cases s.timeout with
  | none => trivial
  | some limit => exact fun _ _ => rfl

theorem isDistinct_of_load (h : load files source = .ok c) : c.IsDistinct := by
  cases source with
  | manifest path => exact Catalogue.isDistinct_of_load h
  | directory path => exact Catalogue.isDistinct_of_ofDirectory h

/-- What answers questions about the packages of the catalogue. -/
def finderOf (files : Tree) (env : Environment) (i : Invocation) (c : Catalogue)
    (settings : Settings) : Finder where
  host := c.host files
  inventory := .empty (i.hostIdentifier? env)
  inspector := inspectorOf settings
  waiting := waitingOf settings

theorem exists_of_openFinder (h : openFinder files env i = .ok f) :
    ∃ source c settings, i.source env = .ok source ∧ load files source = .ok c ∧
      i.settings env = .ok settings ∧ f = finderOf files env i c settings := by
  unfold openFinder at h
  obtain ⟨source, hsource, h⟩ := bind_eq_ok_iff.mp h
  obtain ⟨c, hload, h⟩ := bind_eq_ok_iff.mp h
  obtain ⟨settings, hsettings, h⟩ := bind_eq_ok_iff.mp h
  exact ⟨source, c, settings, mapError_eq_ok_iff.mp hsource, mapError_eq_ok_iff.mp hload,
    mapError_eq_ok_iff.mp hsettings, (Except.ok.inj h).symm⟩

/-- What a command needs to know about packages does not depend on the command. -/
theorem openFinder_withCommand (files : Tree) (env : Environment) (i : Invocation)
    (command : Command) :
    openFinder files env (i.withCommand command) = openFinder files env i := rfl

theorem runAs_of_openFinder_error {message : String} (h : openFinder files env i = .error message)
    (ids : List String) (format : OutputFormat) {command : Command}
    (hcommand : command ∈ [Command.packages, .flagged, .check ids format]) :
    i.runAs files env command = .failed message := by
  have hfails (use : Finder → Ending) :
      withFinder files env (i.withCommand command) use = .failed message := by
    rw [withFinder, openFinder_withCommand, h]
  rcases List.mem_cons.mp hcommand with rfl | hcommand
  · exact hfails Finder.packages
  rcases List.mem_pair.mp hcommand with rfl | rfl
  · exact hfails Finder.flagged
  · exact hfails _

theorem withFinder_of_openFinder (h : openFinder files env i = .ok f) (command : Command)
    (use : Finder → Ending) : withFinder files env (i.withCommand command) use = use f := by
  rw [withFinder, openFinder_withCommand, h]

theorem value_list_finderOf : ((finderOf files env i c settings).inventory.list
    (finderOf files env i c settings).host).value = .ok (i.records env c) :=
  congrArg Inventory.Reply.value (Inventory.list_of_ok rfl rfl)

theorem identifiers_records (i : Invocation) (env : Environment) (c : Catalogue) :
    Inventory.identifiers (i.records env c) = i.names env c := rfl

/-- How a command ends that makes a single report, if any. -/
def Ending.ofReport? (format : OutputFormat) : Option Report → Ending
  | none => .abandoned
  | some r => .printed (Report.write [r] format)

theorem Finder.check_singleton (f : Finder) (id : String) (format : OutputFormat) :
    f.check [id] format = .ofReport? format (f.report? id) := by
  rw [check, List.mapM_cons]
  cases f.report? id <;> rfl

theorem inspect_of_read {path : String} {bytes : ByteArray}
    (hsettings : i.settings env = .ok settings) (hread : files.read path = .ok bytes)
    (format : OutputFormat) :
    inspect files env i path format =
      .ofReport? format (Report.ofQuery? path ((inspectorOf settings).inspect .never bytes)) := by
  rw [inspect, hsettings, openArchive, hread]
  simp only [Except.mapError]
  cases Report.ofQuery? path ((inspectorOf settings).inspect .never bytes) <;> rfl

end opening

/-- The commands say the same about the packages of the list, of which there is one report each. -/
structure Agreement (files : Tree) (env : Environment) (i : Invocation) (names : List String)
    (reports : List Report) : Prop where
  targets : reports.map Report.target = names
  sound : ∀ r ∈ reports, r.IsSound
  checked (format : OutputFormat) :
    (i.runAs files env (.check names format)).Presents reports format
  checkedAlone (format : OutputFormat) : ∀ r ∈ reports,
    (i.runAs files env (.check [r.target] format)).Presents [r] format
  flagged : (i.runAs files env .flagged).IsLineOf
    (Json.texts ((reports.filter Report.isFlagged).map Report.target))
  kept : (i.runAs files env .flagged).texts? =
    some (names.filter fun id => (i.runAs files env (.check [id] .json)).saysFlagged)

/-- Neither the identifier nor the components of the package decide about it. -/
def IsUndecided (p : ManifestPackage) : Prop :=
  Inspector.builtin.NameDecidesNothing p.id ∧
    ∀ component ∈ Catalogue.componentsOf p,
      ¬ Watchlist.builtin.isFlagged component.className = true

/-- The two endings are reports on different targets that say the same about them, or no reports. -/
inductive ReportAlike (target target' : String) (format : OutputFormat) : Ending → Ending → Prop
  | abandoned : ReportAlike target target' format .abandoned .abandoned
  | printed {ending ending' : Ending} (finding : Except String Verdict) (duration : ℕ)
      (h : ending.Presents [⟨target, finding, duration⟩] format)
      (h' : ending'.Presents [⟨target', finding, duration⟩] format) :
      ReportAlike target target' format ending ending'

theorem reportAlike_of_outcome {q q' : QueryReport} (h : q.outcome = q'.outcome)
    (target target' : String) (format : OutputFormat) :
    ReportAlike target target' format (.ofReport? format (Report.ofQuery? target q))
      (.ofReport? format (Report.ofQuery? target' q')) := by
  unfold Report.ofQuery?
  rw [h]
  cases q'.outcome with
  | ok verdict =>
      exact .printed (.ok verdict) 0 (Ending.presents_printed _ _) (Ending.presents_printed _ _)
  | error cause =>
      exact .printed (.error (Report.errorText cause)) 0 (Ending.presents_printed _ _)
        (Ending.presents_printed _ _)
  | abandoned => exact .abandoned

/-- What the commands end with where the packages are those of the catalogue. -/
structure CommandsFit (files : Tree) (env : Environment) (i : Invocation) (c : Catalogue) :
    Prop where
  listed : (i.runAs files env .packages).IsLineOf (PackageRecord.listJson (i.records env c))
  named : (i.runAs files env .packages).under? "packageName" =
    some ((i.names env c).map Json.text)
  agreed : (∃ id ∈ i.names env c, ∀ format,
      i.runAs files env (.check [id] format) = .abandoned) ∨
    ∃ reports, Agreement files env i (i.names env c) reports
  reported (ids : List String) (format : OutputFormat) :
    i.runAs files env (.check ids format) = .abandoned ∨
      ∃ reports, (i.runAs files env (.check ids format)).Presents reports format ∧
        reports.map Report.target = ids ∧ ∀ r ∈ reports, r.IsSound
  judged : ∀ id ∈ i.names env c, ∃ p ∈ c.packages, p.id = id ∧
    (IsUndecided p → ∀ path bytes, p.archive = some path → files.read path = .ok bytes →
      ∀ format, ReportAlike id path format (i.runAs files env (.check [id] format))
        (i.runAs files env (.inspect path format)))

section fitting

variable {files : Tree} {env : Environment} {i : Invocation} {source : Source} {c : Catalogue}
  {settings : Settings} {p : ManifestPackage} {path : String} {bytes : ByteArray}

theorem exists_package_of_mem {id : String} (h : id ∈ i.names env c) :
    ∃ p ∈ c.packages, p.id = id := by
  obtain ⟨record, hrecord, rfl⟩ := List.mem_map.mp h
  obtain ⟨installed, hinstalled, rfl⟩ := List.mem_map.mp hrecord
  obtain ⟨p, hp, rfl⟩ := List.mem_map.mp (List.mem_of_mem_filter hinstalled)
  exact ⟨p, hp, rfl⟩

theorem outcome_classify_of_isUndecided (hdistinct : c.IsDistinct) (hp : p ∈ c.packages)
    (hundecided : IsUndecided p) (hpath : p.archive = some path)
    (hread : files.read path = .ok bytes) :
    ((inspectorOf settings).classify (c.host files) .never p.id).outcome =
      ((inspectorOf settings).inspect .never bytes).outcome := by
  have hcomponents : (c.host files).components p.id = .ok (Catalogue.componentsOf p) :=
    hdistinct.answer_eq hp _
  have harchive : (c.host files).archive p.id = .ok bytes := by
    refine (hdistinct.answer_eq hp _).trans ?_
    simp only [Catalogue.readArchive, hpath, hread]
  have hreaches : (inspectorOf settings).ReachesArchive (c.host files) p.id :=
    ⟨hundecided.1, _, hcomponents, hundecided.2⟩
  rw [Inspector.outcome_classify_of_reachesArchive hreaches,
    Inspector.outcome_classifyArchive_of_ok harchive]

section opened

variable (hopen : openFinder files env i = .ok (finderOf files env i c settings))
include hopen

theorem runAs_check (ids : List String) (format : OutputFormat) :
    i.runAs files env (.check ids format) = (finderOf files env i c settings).check ids format :=
  withFinder_of_openFinder hopen _ _

theorem presents_check {ids : List String} {reports : List Report}
    (h : List.Forall₂ (fun id r => (finderOf files env i c settings).report? id = some r)
      ids reports) (format : OutputFormat) :
    (i.runAs files env (.check ids format)).Presents reports format := by
  rw [runAs_check hopen, Finder.check, Finder.mapM_report?_eq_some_iff.mpr h]
  exact Ending.presents_printed reports format

theorem isLineOf_packages :
    (i.runAs files env .packages).IsLineOf (PackageRecord.listJson (i.records env c)) := by
  have hrun : i.runAs files env .packages = (finderOf files env i c settings).packages :=
    withFinder_of_openFinder hopen _ _
  rw [hrun, Finder.packages, value_list_finderOf]
  exact Ending.isLineOf_printed (PackageRecord.hasText_listJson _)

theorem isLineOf_flagged {reports : List Report}
    (h : List.Forall₂ (fun id r => (finderOf files env i c settings).report? id = some r)
      (i.names env c) reports) : (i.runAs files env .flagged).IsLineOf
        (Json.texts ((reports.filter Report.isFlagged).map Report.target)) := by
  have hrun : i.runAs files env .flagged = (finderOf files env i c settings).flagged :=
    withFinder_of_openFinder hopen _ _
  have hkept := Finder.keepFlagged?_of_reports h (isPatient_waitingOf settings)
  simp only [hrun, Finder.flagged, value_list_finderOf, identifiers_records, hkept]
  exact Ending.isLineOf_printed (Json.hasText_texts _)

theorem agreement_of_reports {reports : List Report}
    (h : List.Forall₂ (fun id r => (finderOf files env i c settings).report? id = some r)
      (i.names env c) reports) :
    Agreement files env i (i.names env c) reports := by
  have htargets : reports.map Report.target = i.names env c := Finder.map_target_of_reports h
  have halone (format : OutputFormat) (r : Report) (hr : r ∈ reports) :
      (i.runAs files env (.check [r.target] format)).Presents [r] format :=
    presents_check hopen (.cons (Finder.report?_target_of_mem h hr) .nil) format
  have hflagged := isLineOf_flagged hopen h
  refine ⟨htargets, fun r _ => r.isSound, presents_check hopen h, halone, hflagged, ?_⟩
  rw [Ending.texts?, hflagged.value?, ← htargets, List.filter_map]
  refine (Json.texts?_texts _).trans (congrArg some (congrArg _ (List.filter_congr ?_)))
  intro r hr
  exact (halone .json r hr).saysFlagged.symm

theorem abandoned_or_agreement :
    (∃ id ∈ i.names env c, ∀ format, i.runAs files env (.check [id] format) = .abandoned) ∨
    ∃ reports, Agreement files env i (i.names env c) reports := by
  cases hreports : (i.names env c).mapM (finderOf files env i c settings).report? with
  | none =>
      -- Apart from its caller the query would have an answer, so `flagged` may still print a list.
      obtain ⟨id, hid, hnone⟩ := Finder.exists_report?_eq_none hreports
      refine .inl ⟨id, hid, fun format => ?_⟩
      rw [runAs_check hopen, Finder.check_singleton, hnone, Ending.ofReport?]
  | some reports =>
      rw [Finder.mapM_report?_eq_some_iff] at hreports
      exact .inr ⟨reports, agreement_of_reports hopen hreports⟩

theorem abandoned_or_reported (ids : List String) (format : OutputFormat) :
    i.runAs files env (.check ids format) = .abandoned ∨
      ∃ reports, (i.runAs files env (.check ids format)).Presents reports format ∧
        reports.map Report.target = ids ∧ ∀ r ∈ reports, r.IsSound := by
  cases hreports : ids.mapM (finderOf files env i c settings).report? with
  | none =>
      rw [runAs_check hopen, Finder.check, hreports]
      exact .inl rfl
  | some reports =>
      rw [Finder.mapM_report?_eq_some_iff] at hreports
      exact .inr ⟨reports, presents_check hopen hreports format,
        Finder.map_target_of_reports hreports, fun r _ => r.isSound⟩

theorem reportAlike_of_isUndecided (hdistinct : c.IsDistinct)
    (hsettings : i.settings env = .ok settings) (hp : p ∈ c.packages)
    (hundecided : IsUndecided p) (hpath : p.archive = some path)
    (hread : files.read path = .ok bytes) (format : OutputFormat) :
    ReportAlike p.id path format (i.runAs files env (.check [p.id] format))
      (i.runAs files env (.inspect path format)) := by
  have hinspect : i.runAs files env (.inspect path format) = .ofReport? format
      (Report.ofQuery? path ((inspectorOf settings).inspect .never bytes)) :=
    inspect_of_read hsettings hread format
  rw [runAs_check hopen, Finder.check_singleton, hinspect]
  apply reportAlike_of_outcome
  exact outcome_classify_of_isUndecided hdistinct hp hundecided hpath hread

theorem commandsFit (hdistinct : c.IsDistinct) (hsettings : i.settings env = .ok settings) :
    CommandsFit files env i c where
  listed := isLineOf_packages hopen
  named := by
    rw [Ending.under?, (isLineOf_packages hopen).value?]
    exact congrArg some (PackageRecord.valuesUnder_listJson _)
  agreed := abandoned_or_agreement hopen
  reported := abandoned_or_reported hopen
  judged := by
    intro id hid
    obtain ⟨p, hp, rfl⟩ := exists_package_of_mem hid
    refine ⟨p, hp, rfl, ?_⟩
    intro hundecided path bytes hpath hread
    exact reportAlike_of_isUndecided hopen hdistinct hsettings hp hundecided hpath hread

end opened

end fitting

/-- If the packages cannot be found or the settings cannot be read, the commands on packages fail
alike. Otherwise one prints their list, and unless the query about one of them is abandoned, another
one prints the identifiers of that list on which the third reports that they are flagged. Each
report holds a verdict or an error, and a package that only its archive decides about is reported on
as the archive is. -/
theorem commands_agree (files : Tree) (env : Environment) (i : Invocation) :
    (∀ message, openFinder files env i = .error message → ∀ ids format,
      ∀ command ∈ [Command.packages, .flagged, .check ids format],
        i.runAs files env command = .failed message) ∧
    ∀ f, openFinder files env i = .ok f → ∃ source c,
      i.source env = .ok source ∧ load files source = .ok c ∧ CommandsFit files env i c := by
  refine ⟨fun message h ids format command => runAs_of_openFinder_error h ids format, ?_⟩
  intro f hopen
  obtain ⟨source, c, settings, hsource, hload, hsettings, rfl⟩ := exists_of_openFinder hopen
  exact ⟨source, c, hsource, hload, commandsFit hopen (isDistinct_of_load hload) hsettings⟩

def manifestText : String :=
  "\x7b\"packages\":[\x7b\"packageName\":\"com.tencent.mm\"\x7d," ++
    "\x7b\"packageName\":\"net.sample\",\"archive\":\"a.apk\"\x7d]\x7d"

/-- A manifest, and a file that does not open as an archive. -/
def manifestFiles : Tree :=
  ⟨[("m.json", .file manifestText.toUTF8 0), ("a.apk", .file ⟨#[1]⟩ 0)], "/"⟩

def noVariables : Environment := ⟨fun _ => none⟩

def manifestInvocation : Invocation :=
  ⟨.packages, some "/m.json", none, none, none, none, false, false⟩

def samplePackage : ManifestPackage :=
  ⟨⟨"net.sample", "", false, 0, []⟩, [], [], [], [], some "/a.apk", none⟩

def manifestCatalogue : Catalogue :=
  ⟨[⟨⟨"com.tencent.mm", "", false, 0, []⟩, [], [], [], [], none, none⟩, samplePackage], none⟩

theorem read_manifestFiles : manifestFiles.read "/m.json" = .ok manifestText.toUTF8 ∧
    manifestFiles.read "/a.apk" = .ok ⟨#[1]⟩ := by
  have hsteps : Files.Path.steps (Files.Path.join "/" "/m.json") = ["m.json"] ∧
      Files.Path.steps (Files.Path.join "/" "/a.apk") = ["a.apk"] := by decide +kernel
  have hnames : "m.json".utf8ByteSize = 6 ∧ "a.apk".utf8ByteSize = 5 := by decide +kernel
  have hpaths : "/m.json".utf8ByteSize = 7 ∧ "/a.apk".utf8ByteSize = 6 := by decide +kernel
  have hother : ("a.apk" == "m.json") = false := by decide
  constructor <;>
    simp [Tree.read, Tree.find, Tree.maxPathBytes, Tree.maxNameBytes, Tree.follow, Tree.entriesAt,
      manifestFiles, hsteps, hnames, hpaths, List.lookup, hother]

theorem load_manifestFiles :
    load manifestFiles (.manifest "/m.json") = .ok manifestCatalogue := by
  have hmanifest : Catalogue.ofManifest "/" <$> (Manifest.read? manifestText) =
      some (.ok manifestCatalogue) := by decide +kernel
  obtain ⟨manifest, hread, hcatalogue⟩ := Option.map_eq_some_iff.mp hmanifest
  have hparent : (Files.Path.parent? "/m.json").getD "." = "/" := by decide +kernel
  have htext : String.fromUTF8? manifestText.toUTF8 = some manifestText := by decide +kernel
  rw [load, Catalogue.load, read_manifestFiles.1]
  simp only [htext, hread, hparent, hcatalogue]

/-- The settings where no option and no variable says otherwise. -/
def standardSettings : Settings := ⟨defaultSizeLimit, none, some defaultTimeout⟩

def manifestFinder : Finder :=
  finderOf manifestFiles noVariables manifestInvocation manifestCatalogue standardSettings

theorem openFinder_manifestFiles :
    openFinder manifestFiles noVariables manifestInvocation = .ok manifestFinder := by
  have hsource : manifestInvocation.source noVariables = .ok (.manifest "/m.json") := rfl
  rw [openFinder, hsource]
  simp only [Except.mapError, bind, Except.bind, load_manifestFiles]
  rfl

theorem isUndecided_samplePackage : IsUndecided samplePackage := by
  refine ⟨⟨by decide +kernel, by decide +kernel⟩, ?_⟩
  intro component hcomponent
  cases hcomponent

def unopenedText : String :=
  "archive-format: archive is not a zip container: invalid Zip archive: Invalid zip header"

/-- What is found out about the two packages. -/
def manifestReports : List Report :=
  [⟨"com.tencent.mm", .ok .identifierMatch, 0⟩, ⟨"net.sample", .error unopenedText, 0⟩]

theorem report?_manifestFinder :
    List.Forall₂ (fun id r => manifestFinder.report? id = some r)
      ["com.tencent.mm", "net.sample"] manifestReports := by
  have hvendor : (manifestFinder.inspector.classify manifestFinder.host .never
      "com.tencent.mm").outcome = .ok .identifierMatch := by decide +kernel
  have hsample : (manifestFinder.inspector.classify manifestFinder.host .never
      "net.sample").outcome = .error (.archive (.unopened (.malformed .tooShort))) := by
    refine (outcome_classify_of_isUndecided (isDistinct_of_load load_manifestFiles) (by decide)
      isUndecided_samplePackage rfl read_manifestFiles.2).trans ?_
    decide +kernel
  refine .cons ?_ (.cons ?_ .nil)
  · rw [Finder.report?, Report.ofQuery?, hvendor]
  · rw [Finder.report?, Report.ofQuery?, hsample]
    rfl

/-- The object of a report, with what stands for the verdict or the error. -/
def printedObject (target flagged finding : String) : String :=
  "  \x7b\n    \"target\": \"" ++ target ++ "\",\n    \"flagged\": " ++ flagged ++ ",\n    " ++
    finding ++ ",\n    \"duration_ms\": 0\n  \x7d"

def unopenedObject (target : String) : String :=
  printedObject target "false" ("\"error\": \"" ++ unopenedText ++ "\"")

/-- A package of the sample is reported on as its archive is, which cannot be opened. -/
theorem commands_agree_sample :
    let run := manifestInvocation.runAs manifestFiles noVariables
    openFinder manifestFiles noVariables manifestInvocation = .ok manifestFinder ∧
    CommandsFit manifestFiles noVariables manifestInvocation manifestCatalogue ∧
    IsUndecided samplePackage ∧ manifestFiles.read "/a.apk" = .ok ⟨#[1]⟩ ∧
    ReportAlike "net.sample" "/a.apk" .json (run (.check ["net.sample"] .json))
      (run (.inspect "/a.apk" .json)) ∧
    run .packages = .printed
      ("[\x7b\"packageName\":\"com.tencent.mm\",\"label\":\"\",\"isSystem\":false," ++
        "\"firstInstallTime\":0\x7d,\x7b\"packageName\":\"net.sample\",\"label\":\"\"," ++
        "\"isSystem\":false,\"firstInstallTime\":0\x7d]\n") ∧
    run .flagged = .printed "[\"com.tencent.mm\"]\n" ∧
    run (.check ["com.tencent.mm", "net.sample"] .text) = .printed
      ("com.tencent.mm\ttrue\tIdentifierMatch\n" ++
        "net.sample\tfalse\t" ++ unopenedText ++ "\n") ∧
    run (.check ["com.tencent.mm", "net.sample"] .json) = .printed
      ("[\n" ++ printedObject "com.tencent.mm" "true"
        "\"verdict\": \x7b\n      \"reason\": \"identifier-match\"\n    \x7d" ++ ",\n" ++
          unopenedObject "net.sample" ++ "\n]\n") ∧
    run (.inspect "/a.apk" .json) = .printed ("[\n" ++ unopenedObject "/a.apk" ++ "\n]\n") := by
  intro run
  obtain ⟨source, c, hsource, hload, hfit⟩ :=
    (commands_agree manifestFiles noVariables manifestInvocation).2 _ openFinder_manifestFiles
  obtain rfl : Source.manifest "/m.json" = source := Except.ok.inj hsource
  obtain rfl : manifestCatalogue = c := Except.ok.inj (load_manifestFiles.symm.trans hload)
  have hreports := report?_manifestFinder
  have hsettings : (manifestInvocation.withCommand (.inspect "/a.apk" .json)).settings
      noVariables = .ok standardSettings := rfl
  refine ⟨openFinder_manifestFiles, hfit, isUndecided_samplePackage, read_manifestFiles.2,
    ?_, ?_, ?_, ?_, ?_, ?_⟩
  · obtain ⟨p, hp, hid, hjudged⟩ := hfit.judged "net.sample" (by decide +kernel)
    obtain rfl : p = samplePackage := by
      rcases List.mem_pair.mp hp with rfl | rfl
      · exact absurd hid (by decide)
      · rfl
    exact hjudged isUndecided_samplePackage "/a.apk" ⟨#[1]⟩ rfl read_manifestFiles.2 .json
  · refine hfit.listed.printed.trans ?_
    decide +kernel
  · refine (isLineOf_flagged openFinder_manifestFiles hreports).printed.trans ?_
    decide +kernel
  · refine (presents_check openFinder_manifestFiles hreports .text).printed.trans ?_
    decide +kernel
  · refine (presents_check openFinder_manifestFiles hreports .json).printed.trans ?_
    decide +kernel
  · refine (inspect_of_read hsettings read_manifestFiles.2 .json).trans ?_
    decide +kernel

end CommandLine

end VendorScreen
