import VendorScreen.CommandLine.Run
import VendorScreen.Files.Snapshot
import VendorScreen.Json.Reader

namespace VendorScreen

open CommandLine (Ending Environment)

/-!
# The program

The arguments say what to do, and standard input holds a snapshot of the files to do it with, one
record a line.
-/

/-- The variables that settings are read from. -/
def settingVariables : List String :=
  ["HOME", "XDG_DATA_HOME", "XDG_CONFIG_HOME", CommandLine.manifestVariable,
    CommandLine.directoryVariable, CommandLine.hostVariable, CommandLine.timeoutVariable,
    CommandLine.jobsVariable]

partial def readLines (input : IO.FS.Stream) (lines : Array String) : IO (Array String) := do
  let line ← input.getLine
  if line.isEmpty then return lines else readLines input (lines.push line)

def readEnvironment : IO Environment := do
  let values ← settingVariables.mapM fun name ↦ return (name, ← IO.getEnv name)
  return ⟨fun name ↦ (values.lookup name).join⟩

def writeEnding (output failures : IO.FS.Stream) : Ending → IO Unit
  | .printed text => output.putStr text
  | .failed message => failures.putStrLn ("Error: " ++ message)
  | .refused .usage => failures.putStrLn "error: unexpected arguments"
  | .refused .help => output.putStrLn ("commands: " ++ ", ".intercalate CommandLine.commandNames)
  | .abandoned => failures.putStrLn "Error: query abandoned"

end VendorScreen

open VendorScreen in
def main (arguments : List String) : IO UInt32 := do
  let lines ← readLines (← IO.getStdin) #[]
  let failures ← IO.getStderr
  match (lines.toList.mapM Json.read?).bind (Files.Tree.ofRecords? "/") with
  | none =>
      failures.putStrLn "Error: not a snapshot"
      return 1
  | some files =>
      let ending := CommandLine.run files (← readEnvironment) arguments
      writeEnding (← IO.getStdout) failures ending
      return ending.status.toUInt32
