import VendorScreen.Text.Decimal

namespace VendorScreen.CommandLine

/-!
# The grammar of command lines

Words and letters name options, what else stands in a command line is an operand or the name of a
subcommand, and behind two dashes all is operands. A value that follows its option in an argument of
its own is looked at when the next option or operand is met, so that a subcommand gets its turn
before it.
-/

/-- Why a command line is not run. -/
inductive Refusal where
  | help
  | usage
deriving DecidableEq, Repr

inductive OptionKey where
  | manifest
  | apkDirectory
  | hostIdentifier
  | timeout
  | jobs
  | debug
  | trace
  | format
deriving DecidableEq, Repr

namespace OptionKey

/-- The name of the option behind two dashes. -/
def word : OptionKey → String
  | manifest => "manifest"
  | apkDirectory => "apk-dir"
  | hostIdentifier => "host-id"
  | timeout => "timeout-ms"
  | jobs => "jobs"
  | debug => "debug"
  | trace => "trace"
  | format => "format"

/-- The name of the option behind one dash. -/
def letter? : OptionKey → Option Char
  | jobs => some 'j'
  | debug => some 'd'
  | trace => some 't'
  | format => some 'f'
  | _ => none

def takesValue : OptionKey → Bool
  | debug | trace => false
  | _ => true

def isCount (value : String) : Bool :=
  match Text.readCount value.toList with
  | .ok _ => true
  | .error _ => false

def accepts (value : String) : OptionKey → Bool
  | manifest | apkDirectory => !value.isEmpty
  | timeout | jobs => isCount value
  | format => value = "json" || value = "text"
  | hostIdentifier | debug | trace => true

end OptionKey

/-- Which operands a command takes. -/
inductive Operands where
  | none
  | path
  | text
  | texts
deriving DecidableEq, Repr

/-- A command, or the program itself. -/
structure Level where
  options : List OptionKey
  operands : Operands
  subcommands : List String

/-- What has been read. -/
structure Progress where
  bound : List (OptionKey × String)
  operands : List String
  /-- The last option and the value that followed it, which has not been looked at. -/
  pending : Option (OptionKey × Option String)
deriving DecidableEq, Repr

namespace Progress

def start : Progress := ⟨[], [], none⟩

/-- An option still waits for its value. -/
def isAwaiting (p : Progress) : Bool :=
  match p.pending with
  | some (_, none) => true
  | _ => false

/-- Gives an option its value. No option may be repeated. -/
def bind (key : OptionKey) (value : String) (p : Progress) : Except Refusal Progress :=
  if (p.bound.lookup key).isSome || !key.accepts value then .error .usage
  else .ok { p with bound := p.bound ++ [(key, value)] }

/-- Looks at the value that is pending. -/
def settle (p : Progress) : Except Refusal Progress :=
  match p.pending with
  | none => .ok p
  | some (_, none) => .error .usage
  | some (key, some value) => { p with pending := none }.bind key value

/-- Waits for the value of an option. -/
def await (key : OptionKey) (p : Progress) : Except Refusal Progress := do
  let p ← p.settle
  return { p with pending := some (key, none) }

/-- Binds an option whose value stands in the same argument. -/
def attach (key : OptionKey) (value : String) (p : Progress) : Except Refusal Progress := do
  let p ← p.settle
  p.bind key value

/-- Asks for help. -/
def askHelp (p : Progress) : Except Refusal Progress := do
  let _ ← p.settle
  .error .help

/-- Takes the value that an option waits for. -/
def give (value : String) (p : Progress) : Progress :=
  { p with pending := p.pending.map fun (key, _) ↦ (key, some value) }

end Progress

namespace Level

/-- An operand can come after so many others. -/
def admits (l : Level) (operand : String) (before : Nat) : Bool :=
  match l.operands with
  | .none => false
  | .path => before = 0 && !operand.isEmpty
  | .text => before = 0
  | .texts => true

def takeOperand (l : Level) (operand : String) (p : Progress) : Except Refusal Progress := do
  let p ← p.settle
  if l.admits operand p.operands.length then
    return { p with operands := p.operands ++ [operand] }
  else .error .usage

def takeOperands (l : Level) (p : Progress) : List String → Except Refusal Progress
  | [] => .ok p
  | operand :: rest => do
      let p ← l.takeOperand operand p
      l.takeOperands p rest

/-- Reads what follows two dashes: a word, and a value behind an equals sign. -/
def readWord (l : Level) (body : List Char) (p : Progress) : Except Refusal Progress :=
  let word := String.ofList (body.takeWhile (· ≠ '='))
  let value := match body.dropWhile (· ≠ '=') with
    | [] => none
    | _ :: value => some (String.ofList value)
  if word = "help" then
    match value with
    | none => p.askHelp
    | some _ => .error .usage
  else
    match l.options.find? fun key ↦ key.word = word with
    | none => .error .usage
    | some key =>
        match value with
        | some value => if key.takesValue then p.attach key value else .error .usage
        | none => if key.takesValue then p.await key else p.attach key ""

/-- The value behind a letter in the same argument, with or without an equals sign. -/
def attachedValue : List Char → String
  | '=' :: value => String.ofList value
  | value => String.ofList value

/-- Reads what follows one dash: letters, and a value behind the last one. -/
def readLetters (l : Level) (p : Progress) : List Char → Except Refusal Progress
  | [] => .ok p
  | c :: rest =>
      if c = 'h' then p.askHelp
      else
        match l.options.find? fun key ↦ key.letter? = some c with
        | none => .error .usage
        | some key =>
            if key.takesValue then
              if rest.isEmpty then p.await key else p.attach key (attachedValue rest)
            else do
              let p ← p.attach key ""
              l.readLetters p rest

/-- The role of an argument that stands before any two dashes on their own. -/
inductive Role where
  | separator
  | word (body : List Char)
  | letters (body : List Char)
  | plain

def roleOf (argument : String) : Role :=
  match argument.toList with
  | ['-'] => .plain
  | ['-', '-'] => .separator
  | '-' :: '-' :: body => .word body
  | '-' :: body => .letters body
  | _ => .plain

/-- Reads arguments up to the name of a subcommand, which is given back with what follows it. -/
def read (l : Level) (p : Progress) :
    List String → Except Refusal (Progress × Option (String × List String))
  | [] => .ok (p, none)
  | argument :: rest =>
      if !p.isAwaiting && l.subcommands.contains argument then .ok (p, some (argument, rest))
      else
        match roleOf argument with
        | .separator => do
            let p ← l.takeOperands p rest
            return (p, none)
        | .word body => do
            let p ← l.readWord body p
            l.read p rest
        | .letters body => do
            let p ← l.readLetters p body
            l.read p rest
        | .plain =>
            if p.isAwaiting then l.read (p.give argument) rest
            else do
              let p ← l.takeOperand argument p
              l.read p rest

end Level

end VendorScreen.CommandLine
