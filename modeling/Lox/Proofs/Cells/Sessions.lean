import Lox.Proofs.Cells.Simulation
import Lox.Proofs.Session.Accounts

/-! Sessions on cells.

Run after run, a session that resolves its names hands on the same lines and the same
reports as one on cells, and leaves the same globals but for frames, environments and
distances. This holds with any fuel, and so of every finite part of an endless run.
-/

set_option autoImplicit false

namespace Lox

namespace Cells

inductive Ending where
  | finished
  | failed (failure : Failure)
  | unfinished

structure Answer where
  lines : List String
  ending : Ending

def Answer.emissions (answer : Answer) : List Emission :=
  answer.lines.map (⟨.output, ·⟩) ++
    match answer.ending with
    | .failed (.runtime error) => [⟨.errors, error.report.text⟩]
    | _ => []

/-- The answer as the result of a session, which may keep a record of what it hands on. -/
def Answer.runEnd (answer : Answer) (record : Bool) : RunEnd :=
  let output := if record then answer.lines else []
  let effects := if record then answer.emissions else []
  match answer.ending with
  | .finished => .finished ⟨.success, output, [], effects⟩
  | .failed (.runtime error) => .finished ⟨.runtimeError, output, [error.report.text], effects⟩
  | .failed (.fault fault) => .escaped fault
  | .unfinished => .unfinished

def run (rules : Rules) (fuel : Nat) (statements : List Stmt) (state : State) : Answer × State :=
  match interpret rules fuel statements state with
  | .done _ after => (⟨after.printed.toList, .finished⟩, { after with printed := #[] })
  | .failed failure after =>
    (⟨after.printed.toList, .failed failure⟩, { after with printed := #[] })
  | .cut after => (⟨after.printed.toList, .unfinished⟩, state)

/-- Run a text as it is parsed, without looking for the distances of its names. -/
def runText (settings : Settings) (state : State) (host : Host) (text : List Char) :
    Answer × State :=
  run (settings.rules host) host.fuel (Source.ofText text).program.statements state

namespace State

def start : State := initial.declare Native.clock.name (.native .clock)

def after (settings : Settings) (state : State) (runs : List (Host × List Char)) : State :=
  runs.foldl (fun state run => (runText settings state run.1 run.2).2) state

end State

variable {rules : Rules} {fuel : Nat} {resolved : List Stmt} {machine : Machine} {state : State}

/-- Between runs a machine stands at the globals, and so does the state that mirrors it. -/
def Rests (machine : Machine) (state : State) : Prop := ∃ places, Mirrors places [] machine state

theorem Rests.of_matches {places : Places} (matched : Matches places machine state) :
    Rests machine.reset (state.returnTo [] 0) :=
  ⟨places, ⟨matched.memory, matched.printed, matched.closures, matched.readings⟩, rfl,
    matched.memory.root, .nil, by simp [State.returnTo]⟩

theorem Rests.clear (rests : Rests machine state) :
    Rests { machine with printed := #[] } { state with printed := #[] } := by
  obtain ⟨places, mirrors⟩ := rests
  have matched := mirrors.matched
  exact ⟨places, ⟨matched.memory, rfl, matched.closures, matched.readings⟩, mirrors.depth,
    mirrors.lies, mirrors.names, mirrors.full⟩

theorem Rests.printed_eq (rests : Rests machine state) : machine.printed = state.printed := by
  obtain ⟨places, mirrors⟩ := rests
  exact mirrors.matched.printed

theorem interpret_mirrored (lexical : rules.lookup = .lexical) (rests : Rests machine state)
    (proper : Stmt.AllProper resolved) (uses : Stmt.EveryUseIn Site.Exact [] resolved) :
    (Lox.interpret rules fuel resolved machine).Both
      (interpret rules fuel (Stmt.eraseAll resolved) state)
      (fun _ after _ after' => Rests after after') Rests
      fun after after' => after.printed = after'.printed := by
  obtain ⟨places, mirrors⟩ := rests
  refine OutcomeIn.Both.mapState (OutcomeIn.Both.bind
    ((mirrorsWith lexical fuel).executeAll mirrors proper uses) ?_) ?_ id
  · rintro completion after other after' ⟨more, behind, step⟩
    exact Rests.of_matches step.mirrors.matched
  · rintro after after' ⟨more, matched⟩
    exact Rests.of_matches matched

end Cells

namespace Session

open Cells (Rests)

variable {session : Session} {host : Host} {text : List Char} {resolved : List Stmt}
  {state : Cells.State}

structure Answers (session : Session) (result : RunEnd × Session)
    (answer : Cells.Answer × Cells.State) : Prop where
  settings : result.2.settings = session.settings
  ending : result.1 = answer.1.runEnd session.settings.record
  stream : result.2.stream = session.stream ++ answer.1.emissions
  rests : Rests result.2.machine answer.2

/-- The account of a run comes to the same as what cells answer. -/
theorem account_answers {rules : Rules} {machine : Machine} (fuel : Nat)
    (lexical : rules.lookup = .lexical) (rests : Rests machine state)
    (proper : Stmt.AllProper resolved) (uses : Stmt.EveryUseIn Site.Exact [] resolved) :
    let account := machine.account rules fuel resolved
    let answer := Cells.run rules fuel (Stmt.eraseAll resolved) state
    (∀ record, account.1.runEnd record = answer.1.runEnd record) ∧
      account.1.emissions = answer.1.emissions ∧ Rests account.2 answer.2 := by
  intro account answer
  have both := OutcomeIn.both_iff_pairs.mp
    (@Cells.interpret_mirrored rules fuel resolved machine state lexical rests proper uses)
  unfold account answer Machine.account Cells.run
  -- Both runs end in the same way, so the two answers are compared case by case.
  generalize interpret rules fuel resolved machine = outcome at both ⊢
  generalize Cells.interpret rules fuel (Stmt.eraseAll resolved) state = mirrored at both ⊢
  cases both with
  | done left =>
    dsimp only
    rw [left.printed_eq]
    exact ⟨fun _ => by simp [Account.runEnd, Cells.Answer.runEnd, Account.emissions,
      Cells.Answer.emissions], by simp [Account.emissions, Cells.Answer.emissions], left.clear⟩
  | @failed failure _ _ _ fails =>
    obtain ⟨rfl, left⟩ := fails
    cases failure with
    | runtime error =>
      dsimp only
      rw [left.printed_eq]
      exact ⟨fun _ => rfl, rfl, left.clear⟩
    | fault fault =>
      dsimp only
      rw [left.printed_eq]
      exact ⟨fun _ => rfl, by simp [Account.emissions, Cells.Answer.emissions], left.clear⟩
  | exhausted printed =>
    dsimp only
    rw [printed]
    exact ⟨fun _ => rfl, by simp [Account.emissions, Cells.Answer.emissions], rests⟩

theorem run_answers (host : Host) (resolving : session.settings.resolve = true)
    (rests : Rests session.machine state) (accepted : (Source.resolved? text).isSome = true)
    (free : Source.OwnFree text) :
    session.Answers (session.run host text) (Cells.runText session.settings state host text) := by
  obtain ⟨resolved, same⟩ := Option.isSome_iff_exists.mp accepted
  have lexical : (session.settings.rules host).lookup = .lexical := by
    simp [Settings.rules, resolving]
  have accounted := session.run_accounted host text
  rw [account_of_resolved? resolving same] at accounted
  obtain ⟨ending, emissions, left⟩ := account_answers host.fuel lexical rests
    (Source.proper_of_resolved? same) (free.allows resolved same)
  unfold Cells.runText
  rw [← Source.eraseAll_of_resolved? same]
  exact ⟨accounted.settings, accounted.ending.trans (ending _),
    accounted.stream.trans (congrArg _ emissions), accounted.machine ▸ left⟩

theorem rests_start (settings : Settings) : Rests (start settings).machine Cells.State.start := by
  have memory : Cells.Memory [] Machine.initial.store [] [] :=
    ⟨rfl, List.nodup_nil, .root (Store.frame?_add_next Store.empty none) rfl, by simp, .nil⟩
  have bound : Cells.Memory [] (start settings).machine.store [] Cells.State.start.globals :=
    memory.bindGlobal (.native .clock)
  exact ⟨[], ⟨bound, rfl, rfl, rfl⟩, rfl, bound.root, .nil, by
    simp [Cells.State.start, Cells.State.initial, Cells.State.declare]⟩

/-- After any runs of such texts the session and its mirror image stand at the same
globals. -/
theorem after_rests (runs : List (Host × List Char)) (resolving : session.settings.resolve = true)
    (rests : Rests session.machine state)
    (accepted : ∀ run ∈ runs, (Source.resolved? run.2).isSome = true ∧ Source.OwnFree run.2) :
    (session.after runs).settings = session.settings ∧
      Rests (session.after runs).machine (state.after session.settings runs) := by
  induction runs generalizing session state with
  | nil => exact ⟨rfl, rests⟩
  | cons first others ih =>
    obtain ⟨accept, free⟩ := accepted first List.mem_cons_self
    have answers := run_answers first.1 resolving rests accept free
    have later := ih (answers.settings ▸ resolving) answers.rests fun run member =>
      accepted run (.tail _ member)
    rw [answers.settings] at later
    exact later

/-- A session that resolves its names hands on what cells hand on, and leaves the same
globals but for frames, environments and distances. -/
theorem run_eq_cells {settings : Settings} (resolving : settings.resolve = true)
    (earlier : List (Host × List Char)) (host : Host) (text : List Char)
    (accepted : ∀ run ∈ (host, text) :: earlier,
      (Source.resolved? run.2).isSome = true ∧ Source.OwnFree run.2) :
    let session := (start settings).after earlier
    let mirrored := Cells.runText settings (Cells.State.start.after settings earlier) host text
    (session.run host text).1 = mirrored.1.runEnd settings.record ∧
      (session.run host text).2.stream = session.stream ++ mirrored.1.emissions ∧
      (session.run host text).2.globals.map (Prod.map id ValueIn.outline) =
        mirrored.2.globals.map (Prod.map id ValueIn.outline) := by
  intro session mirrored
  have resolves : (start settings).settings.resolve = true := resolving
  obtain ⟨same, rests⟩ := after_rests earlier resolves (rests_start settings) fun run member =>
    accepted run (.tail _ member)
  obtain ⟨accept, free⟩ := accepted (host, text) List.mem_cons_self
  have answers := run_answers host (same ▸ resolves) rests accept free
  rw [same] at answers
  obtain ⟨places, mirrors⟩ := answers.rests
  refine ⟨?_, answers.stream, mirrors.matched.memory.globals.outline_eq⟩
  rw [answers.ending, same]
  rfl

/-- A function that prints a global name, called before and after its block declares the
same name. -/
def laterDeclaration : List Char :=
  ['v', 'a', 'r', ' ', 'a', ';', '\x7b', 'f', 'u', 'n', ' ', 'f', '(', ')', '\x7b', 'p', 'r', 'i', 'n',
    't', ' ', 'a', ';', '\x7d', 'f', '(', ')', ';', 'v', 'a', 'r', ' ', 'a', '=', 't', 'r', 'u', 'e', ';',
    'f', '(', ')', ';', '\x7d']

/-- The function does not see the later declaration. -/
theorem run_eq_cells_laterDeclaration :
    ((Source.resolved? laterDeclaration).isSome = true ∧ Source.OwnFree laterDeclaration) ∧
    ((start ⟨true, none, true, false⟩).run ⟨30, none, fun _ => 0⟩ laterDeclaration).1 =
      .finished ⟨.success, ["nil", "nil"], [], [⟨.output, "nil"⟩, ⟨.output, "nil"⟩]⟩ := by
  have conditions : (Source.resolved? laterDeclaration).isSome = true ∧
      Source.OwnFree laterDeclaration := by
    decide +kernel
  refine ⟨conditions, ?_⟩
  have accepted : ∀ run ∈ [((⟨30, none, fun _ => 0⟩ : Host), laterDeclaration)],
      (Source.resolved? run.2).isSome = true ∧ Source.OwnFree run.2 := by
    intro run member
    rw [List.mem_singleton] at member
    subst member
    exact conditions
  have agree := (@run_eq_cells ⟨true, none, true, false⟩ rfl [] ⟨30, none, fun _ => 0⟩
    laterDeclaration accepted).1
  apply Eq.trans agree
  decide +kernel

end Session

end Lox
