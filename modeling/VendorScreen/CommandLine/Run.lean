import VendorScreen.Batch
import VendorScreen.Catalogue
import VendorScreen.CommandLine.Report
import VendorScreen.CommandLine.Settings
import VendorScreen.Inventory

namespace VendorScreen.CommandLine

open Files (Tree)

/-!
# Running commands

A command reads the files and the environment and ends with what it prints. Nothing is printed
unless it succeeds.
-/

inductive Ending where
  | printed (text : String)
  | failed (message : String)
  | refused (refusal : Refusal)
  /-- A query was abandoned in line with the command. -/
  | abandoned
deriving DecidableEq, Repr

def Ending.status : Ending → Nat
  | printed _ => 0
  | failed _ => 1
  | refused .help => 0
  | refused .usage => 2
  | abandoned => 101

/-- What is needed to answer questions about packages. -/
structure Finder where
  host : Host
  inventory : Inventory
  inspector : Inspector
  waiting : Waiting

def inspectorOf (s : Settings) : Inspector := { Inspector.builtin with sizeLimit := s.sizeLimit }

/-- Answers from files do not keep a query from ending in time. -/
def waitingOf (s : Settings) : Waiting :=
  match s.timeout with
  | none => .inLine
  | some _ => .apart fun _ _ ↦ false

def load (files : Tree) : Source → Except CatalogueFault Catalogue
  | .manifest path => Catalogue.load files path
  | .directory path => Catalogue.ofDirectory files path

/-- Loads the packages, and then looks at the settings. -/
def openFinder (files : Tree) (env : Environment) (i : Invocation) : Except String Finder := do
  let source ← (i.source env).mapError SettingsFault.message
  let catalogue ← (load files source).mapError CatalogueFault.message
  let settings ← (i.settings env).mapError SettingsFault.message
  return {
    host := catalogue.host files
    inventory := .empty (i.hostIdentifier? env)
    inspector := inspectorOf settings
    waiting := waitingOf settings }

/-- Opens an archive that is named on the command line. -/
def openArchive (files : Tree) (path : String) : Except String ByteArray :=
  match files.read path with
  | .ok bytes => .ok bytes
  | .error .isDirectory => .error ("Failed to mmap archive: " ++ path)
  | .error _ => .error ("Failed to open archive: " ++ path)

namespace Finder

def packages (f : Finder) : Ending :=
  match (f.inventory.list f.host).value with
  | .error _ => .failed inventoryFailure
  | .ok records => .printed (Report.lines [(PackageRecord.listJson records).write])

def flagged (f : Finder) : Ending :=
  match (f.inventory.list f.host).value with
  | .error _ => .failed inventoryFailure
  | .ok records =>
      match f.inspector.keepFlagged? f.host f.waiting (Inventory.identifiers records) with
      | none => .abandoned
      | some ids => .printed (Report.lines [(Json.texts ids).write])

def report? (f : Finder) (id : String) : Option Report :=
  Report.ofQuery? id (f.inspector.classify f.host .never id)

def check (f : Finder) (ids : List String) (format : OutputFormat) : Ending :=
  match ids.mapM f.report? with
  | none => .abandoned
  | some reports => .printed (Report.write reports format)

def icon (f : Finder) (id : String) : Ending :=
  match (f.inventory.icon f.host id).value with
  | some icon => .printed (Report.lines [icon])
  | none => .failed ("No icon available for " ++ id)

end Finder

/-- The class names in an archive from entry number `index` on, after the given ones. -/
def classesFrom (bytes : ByteArray) (index : Nat) (done : List String) :
    List Zip.Entry → Outcome String (List String)
  | [] => .ok done
  | entry :: rest =>
      match entry.open bytes with
      | .abandoned => .abandoned
      | .unreadable fault => .error (ArchiveFault.unreadableEntry index fault).message
      | .opened e =>
          if isClassContainer entry.name then
            match Dex.decode e.source entry.size with
            | .error _ => .error ("Failed to decode " ++ entry.name)
            | .ok names => classesFrom bytes (index + 1) (done ++ names) rest
          else classesFrom bytes (index + 1) done rest

/-- The names of the classes in the class containers of an archive, in order. -/
def classNames (path : String) (bytes : ByteArray) : Outcome String (List String) :=
  match Zip.Archive.open bytes with
  | .error _ => .error ("Failed to open archive: " ++ path)
  | .ok archive => classesFrom bytes 0 [] archive.entries

def classes (files : Tree) (path : String) : Ending :=
  match openArchive files path with
  | .error message => .failed message
  | .ok bytes =>
      match classNames path bytes with
      | .abandoned => .abandoned
      | .error message => .failed message
      | .ok names => .printed (Report.lines names)

/-- Looks at the settings, and then judges an archive. -/
def inspect (files : Tree) (env : Environment) (i : Invocation) (path : String)
    (format : OutputFormat) : Ending :=
  match (i.settings env).mapError SettingsFault.message with
  | .error message => .failed message
  | .ok settings =>
      match openArchive files path with
      | .error message => .failed message
      | .ok bytes =>
          match Report.ofQuery? path ((inspectorOf settings).inspect .never bytes) with
          | none => .abandoned
          | some report => .printed (Report.write [report] format)

/-- Runs what needs the packages. -/
def withFinder (files : Tree) (env : Environment) (i : Invocation) (use : Finder → Ending) :
    Ending :=
  match openFinder files env i with
  | .error message => .failed message
  | .ok finder => use finder

def Invocation.run (files : Tree) (env : Environment) (i : Invocation) : Ending :=
  match i.command with
  | .packages => withFinder files env i Finder.packages
  | .flagged => withFinder files env i Finder.flagged
  | .check ids format => withFinder files env i fun f ↦ f.check ids format
  | .icon id => withFinder files env i fun f ↦ f.icon id
  | .inspect path format => inspect files env i path format
  | .classes path => classes files path

/-- Runs the program with the arguments behind its name. -/
def run (files : Tree) (env : Environment) (arguments : List String) : Ending :=
  match Invocation.ofArguments (insertCheck arguments) with
  | .error refusal => .refused refusal
  | .ok i => i.run files env

end VendorScreen.CommandLine
