import Lox.CommandLine.Console

/-! The command itself: files, streams and the process environment. -/

set_option autoImplicit false

namespace Lox.CommandLine.Main

/-- The clock stands still during a run. -/
def readHost : IO Host := do
  let now ← IO.monoNanosNow
  return ⟨Nat.pow 2 62, some 20000, fun _ => Float.ofNat now / 1000000000.0⟩

def readVariables : IO Variables := do
  return ⟨← IO.getEnv "LOX_DEBUG", ← IO.getEnv "LOX_MAX_CALL_DEPTH"⟩

/-- A system error code may come with its sign changed. -/
def hasCode (code number : UInt32) : Bool := code = number || code = 0 - number

/-- Code 20 tells a path through a regular file from a directory, and code 36 is
that of a name too long. -/
def readFile (path : String) : IO (Except FileFault (List UInt8)) := do
  try
    return .ok (← IO.FS.readBinFile (Disk.plainPath path)).toList
  catch
    | .noFileOrDirectory .. => return .error .notFound
    | .inappropriateType _ code _ =>
      return .error (if hasCode code 20 then .notDirectory else .isDirectory)
    | error@(.invalidArgument _ code _) =>
      if hasCode code 36 then return .error .nameTooLong else throw error
    | error => throw error

def write (stdout stderr : String) : IO Unit := do
  (← IO.getStderr).putStr stderr
  let output ← IO.getStdout
  output.putStr stdout
  output.flush

def exitCode : Ending → IO UInt32
  | .exit code => return code.toUInt32
  | .escaped fault => do
    write "" (line fault.message)
    return 1
  | .limitTooLarge => do
    write "" (line "the limit on nested calls is too large")
    return 1
  | .nulInPath => do
    write "" (line "the path holds a NUL character")
    return 1
  | .unfinished => do
    write "" (line "out of fuel")
    return 1

def finish (transcript : Transcript) : IO UInt32 := do
  write transcript.stdout transcript.stderr
  exitCode transcript.ending

/-- Submit the lines of one reading, each but the first behind a prompt of its own. -/
def submitLines (console : Console) : List (List Char) → IO (Option Ending × Console)
  | [] => return (none, console)
  | typed :: later => do
    let (ending, console) := console.feed (← readHost) typed
    write console.stdout console.stderr
    let console := { console with stdout := "", stderr := "" }
    if ending.isSome || later.isEmpty then return (ending, console)
    else
      write Console.ask ""
      submitLines console later

partial def prompt (console : Console) : IO UInt32 := do
  write Console.ask ""
  let typed ← (← IO.getStdin).getLine
  if typed.isEmpty then
    write "\n" ""
    return 0
  else
    match ← submitLines console (Text.lines (Text.unifyLineEnds typed.toList)) with
    | (some ending, _) => exitCode ending
    | (none, console) => prompt console

end Lox.CommandLine.Main

open Lox.CommandLine in
def main (arguments : List String) : IO UInt32 := do
  let environment ← Main.readVariables
  match Invocation.ofArguments arguments with
  | .usage => Main.finish usage
  | .script path flags =>
    Main.finish (runScript (← Main.readHost) flags environment path (← Main.readFile path))
  | .prompt flags =>
    match Console.start? flags environment with
    | none => Main.exitCode .limitTooLarge
    | some console =>
      Main.write "" console.stderr
      Main.prompt { console with stderr := "" }
