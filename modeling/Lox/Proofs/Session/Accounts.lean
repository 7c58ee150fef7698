import Lox.Proofs.Frames.Growth
import Lox.Proofs.Session.Runs

/-! The account of a run.

Between runs a session is its settings and its machine. These and the text of a run
decide which lines it prints, what it reports and how it ends; its answer and all that
it hands on follow from that account.
-/

set_option autoImplicit false

namespace Lox

/-- How a run ends, apart from what it hands on. -/
inductive Ending where
  | finished (status : Status)
  | escaped (fault : Fault)
  | unfinished

/-- What a run prints and reports, and how it ends. -/
structure Account where
  lines : List String
  reports : List Report
  ending : Ending

namespace Account

def emissions (account : Account) : List Emission :=
  account.lines.map (⟨.output, ·⟩) ++ account.reports.map (⟨.errors, ·.text⟩)

/-- The answer of a session, which may keep a record of what it hands on. -/
def runEnd (account : Account) (record : Bool) : RunEnd :=
  match account.ending with
  | .finished status =>
    .finished ⟨status, if record then account.lines else [], account.reports.map Report.text,
      if record then account.emissions else []⟩
  | .escaped fault => .escaped fault
  | .unfinished => .unfinished

theorem runEnd_eq_unfinished_iff {account : Account} {record : Bool} :
    account.runEnd record = .unfinished ↔ account.ending = .unfinished := by
  unfold runEnd
  cases account.ending <;> simp

theorem ending_of_runEnd {account : Account} {record : Bool} {result : RunResult}
    (answer : account.runEnd record = .finished result) :
    account.ending = .finished result.status := by
  unfold runEnd at answer
  split at answer
  next same => cases answer; exact same
  all_goals cases answer

end Account

/-- The account of a run of statements, and the machine for the next run. -/
def Machine.account (machine : Machine) (rules : Rules) (fuel : Nat) (statements : List Stmt) :
    Account × Machine :=
  match interpret rules fuel statements machine with
  | .done _ after => (⟨after.printed.toList, [], .finished .success⟩, { after with printed := #[] })
  | .failed (.runtime error) after =>
    (⟨after.printed.toList, [error.report], .finished .runtimeError⟩, { after with printed := #[] })
  | .failed (.fault fault) after =>
    (⟨after.printed.toList, [], .escaped fault⟩, { after with printed := #[] })
  | .cut after => (⟨after.printed.toList, [], .unfinished⟩, machine)

section
variable {machine after : Machine} {rules : Rules} {fuel : Nat} {statements : List Stmt}

theorem Machine.account_of_done {value : Unit}
    (ran : interpret rules fuel statements machine = .done value after) :
    machine.account rules fuel statements =
      (⟨after.printed.toList, [], .finished .success⟩, { after with printed := #[] }) := by
  simp only [account, ran]

theorem Machine.account_of_runtime {error : RuntimeError}
    (ran : interpret rules fuel statements machine = .failed (.runtime error) after) :
    machine.account rules fuel statements =
      (⟨after.printed.toList, [error.report], .finished .runtimeError⟩,
        { after with printed := #[] }) := by
  simp only [account, ran]

theorem Machine.account_of_fault {fault : Fault}
    (ran : interpret rules fuel statements machine = .failed (.fault fault) after) :
    machine.account rules fuel statements =
      (⟨after.printed.toList, [], .escaped fault⟩, { after with printed := #[] }) := by
  simp only [account, ran]

theorem Machine.account_of_cut (ran : interpret rules fuel statements machine = .cut after) :
    machine.account rules fuel statements =
      (⟨after.printed.toList, [], .unfinished⟩, machine) := by
  simp only [account, ran]

theorem Machine.state_interpret (rules : Rules) (fuel : Nat) (statements : List Stmt)
    (machine : Machine) :
    (interpret rules fuel statements machine).state =
      (executeAll rules fuel statements machine).state.reset := by
  rw [interpret, OutcomeIn.state_mapState, OutcomeIn.state_bind_done]

/-- A run leaves the machine as it was if its fuel runs out, and otherwise the one in which
its statements stop, back at the globals. -/
theorem Machine.account_machine (rules : Rules) (fuel : Nat) (statements : List Stmt)
    (machine : Machine) :
    (machine.account rules fuel statements).1.ending = .unfinished ∧
        (machine.account rules fuel statements).2 = machine ∨
      (machine.account rules fuel statements).2 =
        { (executeAll rules fuel statements machine).state.reset with printed := #[] } := by
  rw [← state_interpret]
  cases ran : interpret rules fuel statements machine with
  | done value after => rw [account_of_done ran]; exact .inr rfl
  | failed failure after =>
    cases failure with
    | runtime error => rw [account_of_runtime ran]; exact .inr rfl
    | fault fault => rw [account_of_fault ran]; exact .inr rfl
  | exhausted => rw [account_of_cut ran]; exact .inl ⟨rfl, rfl⟩

/-- At the globals, outside all calls, with nothing printed. -/
structure Machine.AtRest (machine : Machine) : Prop where
  frame : machine.frame = globals
  depth : machine.depth = 0
  printed : machine.printed = #[]

theorem Machine.AtRest.account (rest : machine.AtRest) (rules : Rules) (fuel : Nat)
    (statements : List Stmt) : (machine.account rules fuel statements).2.AtRest := by
  rcases machine.account_machine rules fuel statements with ⟨_, same⟩ | left
  · rw [same]
    exact rest
  · rw [left]
    exact ⟨rfl, rfl, rfl⟩

end

namespace Source

/-- The statements of a text that has no errors, and the reports of any other; names
are resolved or not. -/
def code (resolve : Bool) (text : List Char) : Except (List Report) (List Stmt) :=
  match (ofText text).reports with
  | [] =>
    if resolve then
      match resolveProgram (ofText text).program.statements with
      | .ok statements _ [] => .ok statements
      | .ok _ _ errors | .malformed _ errors => .error (errors.map ScopeError.report)
    else .ok (ofText text).program.statements
  | reports => .error reports

variable {text : List Char} {statements : List Stmt} {reports : List Report}

theorem code_true_eq_ok_iff : code true text = .ok statements ↔ resolved? text = some statements := by
  unfold code resolved? parsed?
  cases (ofText text).reports with
  | cons first others => simp
  | nil =>
    simp only [if_true, Option.bind_some]
    cases resolveProgram (ofText text).program.statements with
    | malformed shape errors => simp [Resolution.clean?]
    | ok found uses errors => cases errors <;> simp [Resolution.clean?]

end Source

namespace Session

variable {session : Session} {host : Host} {text : List Char} {statements : List Stmt}

def account (session : Session) (host : Host) (text : List Char) : Account × Machine :=
  match Source.code session.settings.resolve text with
  | .ok statements =>
    session.machine.account (session.settings.rules host) host.fuel statements
  | .error reports => (⟨[], reports, .finished .rejected⟩, session.machine)

structure Accounted (session : Session) (result : RunEnd × Session) (account : Account × Machine) :
    Prop where
  settings : result.2.settings = session.settings
  machine : result.2.machine = account.2
  reports : result.2.journal.reports = account.1.reports
  ending : result.1 = account.1.runEnd session.settings.record
  stream : result.2.stream = session.stream ++ account.1.emissions

/-- Beginning a run changes nothing that the account is about. -/
theorem Accounted.of_prepare {notes : List String} {distances : Nat} {result : RunEnd × Session}
    {account : Account × Machine}
    (accounted : { session.prepare with notes := notes, distances := distances }.Accounted
      result account) : session.Accounted result account :=
  ⟨accounted.settings, accounted.machine, accounted.reports, accounted.ending, accounted.stream⟩

theorem execute_accounted (fresh : session.Fresh) (host : Host) (statements : List Stmt) :
    session.Accounted (session.execute host statements)
      (session.machine.account (session.settings.rules host) host.fuel statements) := by
  -- One case for each way in which the statements can end; a fault leaves no answer.
  cases ran : interpret (session.settings.rules host) host.fuel statements session.machine with
  | done value machine =>
    rw [execute_of_done ran, Machine.account_of_done ran, adopt_eq]
    constructor
    · rfl
    · rfl
    · exact fresh.reports
    · simp [result, fresh.output, fresh.effects, fresh.reports, Account.runEnd, Account.emissions,
        Journal.messages]
    · simp [Account.emissions]
  | failed failure machine =>
    cases failure with
    | runtime error =>
      rw [execute_of_runtime ran, Machine.account_of_runtime ran, report_eq, adopt_eq]
      constructor
      · rfl
      · rfl
      · simp [fresh.reports, Journal.add]
      · simp [result, fresh.output, fresh.effects, fresh.reports, Account.runEnd,
          Account.emissions, Journal.messages, Journal.add]
        split <;> rfl
      · simp [Account.emissions]
    | fault fault =>
      rw [execute_of_fault ran, Machine.account_of_fault ran, adopt_eq]
      constructor
      · rfl
      · rfl
      · exact fresh.reports
      · rfl
      · simp [Account.emissions]
  | @exhausted machine =>
    rw [execute_of_cut ran, Machine.account_of_cut ran, printLines_eq]
    constructor
    · rfl
    · rfl
    · exact fresh.reports
    · rfl
    · simp [Account.emissions]

/-- Statements that resolve without errors are executed as their account says. -/
theorem runStatements_accounted {resolved : List Stmt} (fresh : session.Fresh) (host : Host)
    (resolving : session.settings.resolve = true)
    (clean : (resolveProgram statements).clean? = some resolved) :
    session.Accounted (session.runStatements host statements)
      (session.machine.account (session.settings.rules host) host.fuel resolved) := by
  obtain ⟨notes, distances, executes⟩ := session.runStatements_of_clean? host resolving clean
  have accounted := @execute_accounted { session with notes := notes, distances := distances }
    ⟨fresh.output, fresh.effects, fresh.reports⟩ host resolved
  rw [executes]
  exact ⟨accounted.settings, accounted.machine, accounted.reports, accounted.ending, accounted.stream⟩

theorem rejected_accounted (fresh : session.Fresh) (reports : List Report) (notes : List String) :
    session.Accounted
      (.finished ({ session.reportAll reports with notes := notes }.result .rejected),
        { session.reportAll reports with notes := notes })
      (⟨[], reports, .finished .rejected⟩, session.machine) := by
  rw [reportAll_eq]
  constructor
  · rfl
  · rfl
  · simp [fresh.reports]
  · simp [result, fresh.output, fresh.effects, fresh.reports, Account.runEnd, Account.emissions,
      Journal.messages]
  · simp [Account.emissions]

theorem run_accounted (session : Session) (host : Host) (text : List Char) :
    session.Accounted (session.run host text) (session.account host text) := by
  have fresh : ∀ notes distances,
      { session.prepare with notes := notes, distances := distances }.Fresh :=
    fun _ _ => ⟨rfl, rfl, rfl⟩
  unfold account Source.code
  cases faulty : (Source.ofText text).reports with
  -- The text itself has errors, so nothing is resolved or run.
  | cons first others =>
    obtain ⟨notes, read⟩ := session.prepare.parse_eq text
    rw [session.run_of_faulty host (by simp [faulty]), read, faulty]
    exact .of_prepare
      (rejected_accounted (fresh session.notes session.distances) (first :: others) notes)
  | nil =>
    have parsed : Source.parsed? text = some (Source.ofText text).program.statements := by
      simp [Source.parsed?, faulty]
    -- Without resolving, the statements run as they were parsed.
    cases resolving : session.settings.resolve with
    | false =>
      obtain ⟨notes, begins⟩ := session.run_of_parsed? host parsed
      have searches : { session.prepare with notes := notes }.settings.resolve = false := resolving
      rw [begins, runStatements, searches]
      exact .of_prepare (execute_accounted (fresh notes session.distances) host _)
    | true =>
      obtain ⟨resolved, uses, errors, answer⟩ :=
        resolveProgram_total (Source.shape_of_parsed? parsed).1
      dsimp only
      rw [if_pos rfl, answer]
      cases errors with
      | nil =>
        have same : Source.resolved? text = some resolved := by
          simp [Source.resolved?, parsed, answer, Resolution.clean?]
        obtain ⟨notes, distances, executes⟩ := session.run_of_resolved? host resolving same
        rw [executes]
        exact .of_prepare (execute_accounted (fresh notes distances) host resolved)
      -- The resolver has found errors, and has noted its uses all the same.
      | cons first others =>
        obtain ⟨notes, begins⟩ := session.run_of_parsed? host parsed
        obtain ⟨more, noted⟩ := note_eq
          ({ session.prepare with notes := notes }.reportAll
            ((first :: others).map ScopeError.report))
          ("resolved " ++ toString uses.length ++ " local references")
        have resolves : { session.prepare with notes := notes }.settings.resolve = true := resolving
        rw [begins, runStatements, if_pos resolves, answer]
        dsimp only
        rw [if_neg (by simp), noted]
        exact .of_prepare (rejected_accounted (fresh notes session.distances)
          ((first :: others).map ScopeError.report) more)

theorem account_of_resolved? (resolves : session.settings.resolve = true)
    (accepted : Source.resolved? text = some statements) :
    session.account host text =
      session.machine.account (session.settings.rules host) host.fuel statements := by
  unfold account
  rw [resolves, Source.code_true_eq_ok_iff.mpr accepted]

/-- Sessions keep their settings, and their machines rest between runs. -/
theorem after_atRest (runs : List (Host × List Char)) : ∀ {session : Session},
    session.machine.AtRest →
    (session.after runs).settings = session.settings ∧ (session.after runs).machine.AtRest := by
  induction runs with
  | nil => exact fun rest => ⟨rfl, rest⟩
  | cons run runs ih =>
    intro session rest
    have accounted := session.run_accounted run.1 run.2
    have next : (session.run run.1 run.2).2.machine.AtRest := by
      rw [accounted.machine]
      unfold account
      split
      · exact rest.account _ _ _
      · exact rest
    obtain ⟨settings, atRest⟩ := ih next
    exact ⟨settings.trans accounted.settings, atRest⟩

end Session

end Lox
