import VendorScreen.CommandLine.Grammar

namespace VendorScreen.CommandLine

/-!
# Invocations

A command line names a command, with options for all commands in front of it. Where the first plain
argument is not the name of a command, packages are to be checked.
-/

inductive OutputFormat where
  | json
  | text
deriving DecidableEq, Repr

inductive Command where
  | packages
  | flagged
  | check (ids : List String) (format : OutputFormat)
  | inspect (archive : String) (format : OutputFormat)
  | classes (archive : String)
  | icon (id : String)
deriving DecidableEq, Repr

structure Invocation where
  command : Command
  manifest : Option String
  apkDirectory : Option String
  hostIdentifier : Option String
  timeout : Option Nat
  jobs : Option Nat
  debug : Bool
  trace : Bool
deriving DecidableEq, Repr

/-- The names of the commands, and of the one that explains them. -/
def commandNames : List String :=
  ["packages", "flagged", "check", "inspect", "classes", "icon", "help"]

/-- The options in front of a command. -/
def program : Level :=
  { options := [.manifest, .apkDirectory, .hostIdentifier, .timeout, .jobs, .debug, .trace]
    operands := .none
    subcommands := commandNames }

def Command.level : String → Level
  | "check" => ⟨[.format], .texts, []⟩
  | "inspect" => ⟨[.format], .path, []⟩
  | "classes" => ⟨[], .path, []⟩
  | "icon" => ⟨[], .text, []⟩
  | _ => ⟨[], .none, []⟩

namespace Progress

def format (p : Progress) : OutputFormat :=
  if p.bound.lookup .format = some "text" then .text else .json

/-- The command of the given name. -/
def command (p : Progress) : String → Except Refusal Command
  | "packages" => .ok .packages
  | "flagged" => .ok .flagged
  | "check" => if p.operands.isEmpty then .error .usage else .ok (.check p.operands p.format)
  | "inspect" =>
      match p.operands with
      | archive :: _ => .ok (.inspect archive p.format)
      | [] => .error .usage
  | "classes" =>
      match p.operands with
      | archive :: _ => .ok (.classes archive)
      | [] => .error .usage
  | "icon" =>
      match p.operands with
      | id :: _ => .ok (.icon id)
      | [] => .error .usage
  | _ => .error .usage

def count? (p : Progress) (key : OptionKey) : Option Nat :=
  match (p.bound.lookup key).map fun value ↦ Text.readCount value.toList with
  | some (.ok n) => some n
  | _ => none

/-- The invocation of a command. A manifest and a directory of archives exclude each other. -/
def invocation (p : Progress) (command : Command) : Except Refusal Invocation :=
  let manifest := p.bound.lookup .manifest
  let apkDirectory := p.bound.lookup .apkDirectory
  if manifest.isSome && apkDirectory.isSome then .error .usage
  else
    .ok {
      command, manifest, apkDirectory
      hostIdentifier := p.bound.lookup .hostIdentifier
      timeout := p.count? .timeout
      jobs := p.count? .jobs
      debug := (p.bound.lookup .debug).isSome
      trace := (p.bound.lookup .trace).isSome }

end Progress

/-- Help can be asked for one command. -/
def helpOn (topics : List String) : Refusal :=
  match topics with
  | [] => .help
  | [topic] => if commandNames.contains topic then .help else .usage
  | _ => .usage

/-- Reads the arguments behind the program's name. -/
def Invocation.ofArguments (arguments : List String) : Except Refusal Invocation := do
  let (global, found) ← program.read .start arguments
  match found with
  | none => .error .usage
  | some ("help", topics) => .error (helpOn topics)
  | some (name, rest) =>
      let (p, _) ← (Command.level name).read .start rest
      let p ← p.settle
      let command ← p.command name
      let global ← global.settle
      global.invocation command

/-! ## The command that goes without saying -/

/-- The options that take the next argument for their value. -/
def valuedOptions : List String :=
  ["--manifest", "--apk-dir", "--host-id", "--timeout-ms", "--jobs", "-j"]

def startsWithDash (argument : String) : Bool := argument.toList.head? = some '-'

/-- Names the command unless the first argument does. -/
def nameCheck : List String → List String
  | [] => []
  | argument :: rest =>
      if commandNames.contains argument then argument :: rest else "check" :: argument :: rest

/-- Names the command behind the options. -/
def insertCheck : List String → List String
  | [] => []
  | [argument] => if startsWithDash argument then [argument] else nameCheck [argument]
  | argument :: next :: rest =>
      if argument = "--" then argument :: nameCheck (next :: rest)
      else if valuedOptions.contains argument then argument :: next :: insertCheck rest
      else if startsWithDash argument then argument :: insertCheck (next :: rest)
      else nameCheck (argument :: next :: rest)

/-- Names the command in the arguments, of which the first is the program's name. -/
def withImplicitCheck : List String → List String
  | [] => []
  | name :: rest => name :: insertCheck rest

end VendorScreen.CommandLine
