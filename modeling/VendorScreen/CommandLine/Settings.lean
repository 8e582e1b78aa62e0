import VendorScreen.CommandLine.Invocation
import VendorScreen.Files.Path
import VendorScreen.Query
import VendorScreen.Text.Blank
import VendorScreen.Text.Quoted

namespace VendorScreen.CommandLine

/-!
# Settings

Options come before variables of the environment, and those before what is built in.
-/

structure Environment where
  /-- The value of a variable, if it is set. -/
  get? : String → Option String

/-- Where the packages are listed. -/
inductive Source where
  | manifest (path : String)
  | directory (path : String)
deriving DecidableEq, Repr

inductive SettingsFault where
  | noDataDirectory
  | badCount (name raw : String) (fault : Text.DecimalFault)
deriving DecidableEq, Repr

namespace SettingsFault

def message : SettingsFault → String
  | noDataDirectory => "Failed to resolve data directory"
  | badCount name raw _ => "Invalid " ++ name ++ ": " ++ Text.quote raw

/-- The causes of a fault, the outermost first. -/
def chain (fault : SettingsFault) : List String :=
  match fault with
  | noDataDirectory => [fault.message]
  | badCount _ _ cause => [fault.message, cause.message]

end SettingsFault

def manifestVariable : String := "VENDOR_FINDER_MANIFEST"
def directoryVariable : String := "VENDOR_FINDER_APK_DIR"
def hostVariable : String := "VENDOR_FINDER_HOST_ID"
def timeoutVariable : String := "VENDOR_FINDER_TIMEOUT_MS"
def jobsVariable : String := "VENDOR_FINDER_JOBS"

namespace Environment

def home? (env : Environment) : Option String := (env.get? "HOME").filter (!·.isEmpty)

def absolute? (env : Environment) (name : String) : Option String :=
  (env.get? name).filter Files.Path.isAbsolute

/-- The directory for the data of programs, or failing that for their configuration. -/
def dataDirectory? (env : Environment) : Option String :=
  (env.absolute? "XDG_DATA_HOME").or
    ((env.home?.map fun home ↦ Files.Path.join home ".local/share").or
      (env.absolute? "XDG_CONFIG_HOME"))

/-- The number that a variable is set to, with white space around it. -/
def count? (env : Environment) (name : String) : Except SettingsFault (Option Nat) :=
  match env.get? name with
  | none => .ok none
  | some raw =>
      match Text.readCount (Text.trim raw.toList) with
      | .ok n => .ok (some n)
      | .error fault => .error (.badCount name raw fault)

end Environment

/-- How packages are to be classified. -/
structure Settings where
  sizeLimit : Nat
  /-- The number of queries at a time, unless it is left to the machine. -/
  jobs : Option Nat
  /-- The milliseconds that a query may take. -/
  timeout : Option Nat
deriving DecidableEq, Repr

def defaultTimeout : Nat := 30000

namespace Invocation

def source (i : Invocation) (env : Environment) : Except SettingsFault Source :=
  match i.manifest, i.apkDirectory, env.get? manifestVariable, env.get? directoryVariable with
  | some path, _, _, _ => .ok (.manifest path)
  | none, some path, _, _ => .ok (.directory path)
  | none, none, some path, _ => .ok (.manifest path)
  | none, none, none, some path => .ok (.directory path)
  | none, none, none, none =>
      match env.dataDirectory? with
      | none => .error .noDataDirectory
      | some directory =>
          .ok (.manifest (Files.Path.join (Files.Path.join directory "vendor-finder")
            "inventory.json"))

/-- The identifier of the application that asks. An empty one is none. -/
def hostIdentifier? (i : Invocation) (env : Environment) : Option String :=
  (i.hostIdentifier.or (env.get? hostVariable)).filter (!·.isEmpty)

/-- A number given by an option, or else by a variable. -/
def countOr (given : Option Nat) (env : Environment) (name : String) :
    Except SettingsFault (Option Nat) :=
  match given with
  | some n => .ok (some n)
  | none => env.count? name

/-- A timeout of zero is none, and there is at least one job. -/
def settings (i : Invocation) (env : Environment) : Except SettingsFault Settings := do
  let timeout ← countOr i.timeout env timeoutVariable
  let jobs ← countOr i.jobs env jobsVariable
  return {
    sizeLimit := defaultSizeLimit
    jobs := jobs.map (max 1)
    timeout := (some (timeout.getD defaultTimeout)).filter (· ≠ 0) }

end Invocation

end VendorScreen.CommandLine
