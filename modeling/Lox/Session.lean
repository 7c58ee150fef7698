import Lox.Eval.Basic
import Lox.Scope
import Lox.Settings
import Lox.Syntax.Program

/-! A session runs one program after the other over the same globals.

A run is rejected if its text, its syntax or its scopes have errors; otherwise its
statements are executed. Every printed line and every report is handed on at
once, and a recording session also keeps both in order for the answer of the
run. What a run printed before its fuel ran out is handed on as well.

The answer of a run has its own copies of the output and the errors, but its effects are
the list that the session goes on writing to until the next run: a text that is only
read in between adds its reports to them.
-/

set_option autoImplicit false

namespace Lox

inductive Channel where
  | output
  | errors
  deriving DecidableEq, Repr

structure Emission where
  channel : Channel
  text : String
  deriving DecidableEq, Repr

inductive Status where
  | success
  | rejected
  | runtimeError
  deriving DecidableEq, Repr

namespace Status

def name : Status → String
  | .success => "success"
  | .rejected => "error"
  | .runtimeError => "runtime-error"

def exitCode : Status → Nat
  | .success => 0
  | .rejected => 65
  | .runtimeError => 70

end Status

/-- The answer of a run, as it is when the run returns. -/
structure RunResult where
  status : Status
  output : List String
  errors : List String
  effects : List Emission
  deriving DecidableEq, Repr

def RunResult.errorText (result : RunResult) : String :=
  "\n".intercalate result.errors

/-- How a run ends: with a result, with a fault that the session does not handle,
or not within the fuel. -/
inductive RunEnd where
  | finished (result : RunResult)
  | escaped (fault : Fault)
  | unfinished
  deriving DecidableEq, Repr

/-- `output` and `effects` belong to the run, `stream` and `notes` to the step; `past` has
the lists of effects of the runs before, the oldest first. -/
structure Session where
  settings : Settings
  journal : Journal
  machine : Machine
  distances : Nat
  output : List String
  past : List (List Emission)
  effects : List Emission
  stream : List Emission
  notes : List String

namespace Session

def start (settings : Settings) : Session where
  settings := settings
  journal := .empty
  machine := Machine.initial.define Native.clock.name (.native .clock)
  distances := 0
  output := []
  past := []
  effects := []
  stream := []
  notes := []

def start? (settings : Settings) : Option Session :=
  if settings.granted then some (start settings) else none

def beginStep (session : Session) : Session :=
  { session with stream := [], notes := [] }

def emit (session : Session) (emissions : List Emission) : Session :=
  let session := { session with stream := session.stream ++ emissions }
  if session.settings.record then
    { session with effects := session.effects ++ emissions }
  else session

def printLines (session : Session) (lines : List String) : Session :=
  let session :=
    if session.settings.record then { session with output := session.output ++ lines }
    else session
  session.emit (lines.map fun line => ⟨.output, line⟩)

def report (session : Session) (report : Report) : Session :=
  { session with journal := session.journal.add report }.emit [⟨.errors, report.text⟩]

def reportAll (session : Session) (reports : List Report) : Session :=
  reports.foldl report session

def note (session : Session) (text : String) : Session :=
  if session.settings.debug then
    { session with notes := session.notes ++ ["[DBG] " ++ text] }
  else session

def parse (session : Session) (text : List Char) : Source × Session :=
  let source := Source.ofText text
  let tokens := source.scan.tokens.length + 1
  let statements := source.program.statements.length
  (source, ((session.reportAll source.reports).note
    ("scanned " ++ toString tokens ++ " tokens")).note
    ("parsed " ++ toString statements ++ " statements"))

def result (session : Session) (status : Status) : RunResult :=
  ⟨status, session.output, session.journal.messages, session.effects⟩

/-- The lists of effects that answers of this session hold, in the order of the runs. The
first is for what is read before any run. -/
def ledgers (session : Session) : List (List Emission) := session.past ++ [session.effects]

/-- Which of the lists the session writes to, and the answer of the latest run holds. -/
def ledger (session : Session) : Nat := session.past.length

/-- An answer that holds a certain list of effects, looked at again in a later state. -/
def reread (session : Session) (ledger : Nat) (result : RunResult) : RunResult :=
  { result with effects := session.ledgers.getD ledger result.effects }

/-- Take over the state of a machine and hand on what it printed. -/
def adopt (session : Session) (machine : Machine) : Session :=
  { session with machine := { machine with printed := #[] } }.printLines machine.printed.toList

def execute (session : Session) (host : Host) (statements : List Stmt) : RunEnd × Session :=
  let rules := session.settings.rules host
  match interpret rules host.fuel statements session.machine with
  | .done _ machine =>
    let session := session.adopt machine
    (.finished (session.result .success), session)
  | .failed (.runtime error) machine =>
    let session := (session.adopt machine).report error.report
    (.finished (session.result .runtimeError), session)
  | .failed (.fault fault) machine => (.escaped fault, session.adopt machine)
  | .cut machine => (.unfinished, session.printLines machine.printed.toList)

/-- Resolve and execute statements that parsed without errors. -/
def runStatements (session : Session) (host : Host) (statements : List Stmt) :
    RunEnd × Session :=
  if session.settings.resolve then
    match resolveProgram statements with
    | .malformed shape errors =>
      (.escaped (.malformed shape), session.reportAll (errors.map ScopeError.report))
    | .ok statements uses errors =>
      let session := (session.reportAll (errors.map ScopeError.report)).note
        ("resolved " ++ toString uses.length ++ " local references")
      if errors.isEmpty then
        { session with distances := session.distances + uses.length }.execute host statements
      else (.finished (session.result .rejected), session)
  else session.execute host statements

/-- A session at the beginning of a run. The list of effects of the run before stays with
its answer, and a new one is begun. -/
def prepare (session : Session) : Session :=
  { session with
    journal := session.journal.reset
    output := []
    past := session.past ++ [session.effects]
    effects := [] }

def run (session : Session) (host : Host) (text : List Char) : RunEnd × Session :=
  let session := session.prepare
  let (source, session) := session.parse text
  if session.journal.hasStatic then (.finished (session.result .rejected), session)
  else session.runStatements host source.program.statements

/-- The global names with their values, in the order of their first definition. -/
def globals (session : Session) : List (String × Value) :=
  session.machine.store.bindings Machine.globals

/-- Whether the machine stands at the globals, outside all calls. -/
def atRest (session : Session) : Bool :=
  session.machine.frame = Machine.globals && session.machine.depth = 0

end Session

end Lox
