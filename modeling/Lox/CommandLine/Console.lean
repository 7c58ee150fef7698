import Lox.CommandLine.Disk
import Lox.CommandLine.Invocation
import Lox.Session
import Lox.Text.Lines
import Lox.Text.Utf8
import Lox.Variables

/-! The command: run a script, or read programs line by line at a prompt.

Printed lines and reports share the standard output. With the flag that shows
trees, every text is first read once more on its own, and each of its statements
that parsed is written before the run says anything.
-/

set_option autoImplicit false

namespace Lox.CommandLine

/-- How the command ends. -/
inductive Ending where
  | exit (code : Nat)
  | escaped (fault : Fault)
  | limitTooLarge
  | nulInPath
  | unfinished
  deriving DecidableEq, Repr

/-- What the command has written, and how it ended. -/
structure Transcript where
  ending : Ending
  stdout : String
  stderr : String
  deriving DecidableEq, Repr

structure Console where
  flags : Flags
  environment : Variables
  session : Session
  stdout : String
  stderr : String

def line (text : String) : String := text ++ "\n"

def allLines (texts : List String) : String := String.join (texts.map line)

namespace Console

def settings (flags : Flags) (environment : Variables) : Settings where
  resolve := flags.resolve
  limit := environment.limit.1
  record := false
  debug := environment.debugging

def start? (flags : Flags) (environment : Variables) : Option Console :=
  (Session.start? (settings flags environment)).map fun session =>
    ⟨flags, environment, session, "", allLines environment.limitNotes⟩

def finish (console : Console) (ending : Ending) : Transcript :=
  ⟨ending, console.stdout, console.stderr⟩

def write (console : Console) (text : String) : Console :=
  { console with stdout := console.stdout ++ text }

/-- Write the statements of a text, read in a session of its own. -/
def showTree (console : Console) (text : List Char) : Console :=
  let (source, reader) :=
    (Session.start (settings ⟨true, false⟩ console.environment)).parse text
  { console with
    stdout := console.stdout ++ allLines (source.program.statements.map Stmt.form)
    stderr := console.stderr ++ allLines (console.environment.limitNotes ++ reader.notes) }

/-- Run a text and write what the session hands on. -/
def runText (console : Console) (host : Host) (text : List Char) : RunEnd × Console :=
  let (answer, session) := console.session.beginStep.run host text
  (answer, { console with
    session := session
    stdout := console.stdout ++ allLines (session.stream.map Emission.text)
    stderr := console.stderr ++ allLines session.notes })

def submit (console : Console) (host : Host) (text : List Char) : RunEnd × Console :=
  let console := if console.flags.showTree then console.showTree text else console
  console.runText host text

/-- Submit one line of the prompt. A blank line is skipped and `exit` ends. -/
def feed (console : Console) (host : Host) (typed : List Char) : Option Ending × Console :=
  let text := Text.trimLine typed
  if text = [] then (none, console)
  else if text = "exit".toList then (some (.exit 0), console)
  else
    let (answer, console) := console.submit host text
    match answer with
    | .finished _ => (none, console)
    | .escaped fault => (some (.escaped fault), console)
    | .unfinished => (some .unfinished, console)

def ask : String := "> "

/-- Read lines up to one that ends the session, or to the end of the input. -/
def prompt (host : Host) (console : Console) : List (List Char) → Transcript
  | [] => (console.write (ask ++ "\n")).finish (.exit 0)
  | typed :: later =>
    match (console.write ask).feed host typed with
    | (some ending, console) => console.finish ending
    | (none, console) => prompt host console later

def script (host : Host) (console : Console) (text : List Char) : Transcript :=
  let (answer, console) := console.submit host text
  console.finish <|
    match answer with
    | .finished result => .exit result.status.exitCode
    | .escaped fault => .escaped fault
    | .unfinished => .unfinished

end Console

def refuse (code : Nat) (complaint : String) : Transcript :=
  ⟨.exit code, "", line ("Error: " ++ complaint)⟩

def FileFault.refusal (path : String) : FileFault → Transcript
  | .notFound => refuse 66 ("file not found: " ++ path)
  | .isDirectory => refuse 66 ("cannot read " ++ path ++ ": Is a directory")
  | .notDirectory => refuse 66 ("cannot read " ++ path ++ ": Not a directory")
  | .nameTooLong => refuse 66 ("cannot read " ++ path ++ ": File name too long")
  | .nulInPath => ⟨.nulInPath, "", ""⟩

def withConsole (flags : Flags) (environment : Variables) (next : Console → Transcript) :
    Transcript :=
  match Console.start? flags environment with
  | none => ⟨.limitTooLarge, "", ""⟩
  | some console => next console

def runScript (host : Host) (flags : Flags) (environment : Variables) (path : String)
    (contents : Except FileFault (List UInt8)) : Transcript :=
  match contents with
  | .error fault => fault.refusal path
  | .ok bytes =>
    match Text.Utf8.decode bytes with
    | .error fault => refuse 65 (path ++ " is not valid UTF-8: " ++ fault.message)
    | .ok text =>
      withConsole flags environment fun console => console.script host (Text.unifyLineEnds text)

def runPrompt (host : Host) (flags : Flags) (environment : Variables) (input : List Char) :
    Transcript :=
  withConsole flags environment fun console =>
    console.prompt host (Text.lines (Text.unifyLineEnds input))

def usage : Transcript := ⟨.exit 64, line "Usage: klox [script]", ""⟩

def run (host : Host) (environment : Variables) (disk : Disk) (arguments : List String)
    (input : List Char) : Transcript :=
  match Invocation.ofArguments arguments with
  | .usage => usage
  | .script path flags => runScript host flags environment path (disk.read path)
  | .prompt flags => runPrompt host flags environment input

end Lox.CommandLine
