import Lox.Proofs.Session.Accounts

/-! What the steps of a session leave behind.

A step runs a text or only reads it. Its answer, the texts that it hands on and the
state behind it depend on the settings, the machine and the count of distances alone. A
run that is rejected leaves these alone, and so does a step that only reads, so later
steps go as if there had been no such step.
-/

set_option autoImplicit false

namespace Lox

/-- What a session is asked for. -/
inductive Step where
  | run (host : Host) (text : List Char)
  | read (text : List Char)

/-- What is seen of a step, and the state behind it. -/
structure Visit where
  answer : Option RunEnd
  handedOn : List Emission
  machine : Machine
  distances : Nat

def RunEnd.Rejected : RunEnd → Prop
  | .finished result => result.status = .rejected
  | .escaped _ | .unfinished => False

instance (answer : RunEnd) : Decidable answer.Rejected :=
  match answer with
  | .finished result => inferInstanceAs (Decidable (result.status = .rejected))
  | .escaped _ | .unfinished => inferInstanceAs (Decidable False)

namespace Visit

/-- The step only read a text, or its run was rejected. -/
def Idle (visit : Visit) : Prop :=
  ∀ answer ∈ visit.answer, answer.Rejected

instance (visit : Visit) : Decidable visit.Idle :=
  inferInstanceAs (Decidable (∀ answer ∈ visit.answer, answer.Rejected))

/-- No output of a program was handed on or recorded. -/
structure Silent (visit : Visit) : Prop where
  handedOn : ∀ emission ∈ visit.handedOn, emission.channel = .errors
  recorded : ∀ result, visit.answer = some (.finished result) →
    result.output = [] ∧ ∀ effect ∈ result.effects, effect.channel = .errors

end Visit

namespace Source

def recorded (resolve : Bool) (text : List Char) : Nat :=
  match (ofText text).reports, resolve with
  | [], true =>
    match resolveProgram (ofText text).program.statements with
    | .ok _ uses [] => uses.length
    | _ => 0
  | _, _ => 0

theorem recorded_of_code_error {resolve : Bool} {text : List Char} {reports : List Report}
    (rejected : code resolve text = .error reports) : recorded resolve text = 0 := by
  unfold code at rejected
  unfold recorded
  cases faulty : (ofText text).reports with
  | cons first others => rfl
  | nil =>
    cases resolve with
    | false => rfl
    | true =>
      cases answer : resolveProgram (ofText text).program.statements with
      | malformed shape errors => rfl
      | ok statements uses errors =>
        cases errors with
        | nil => simp [faulty, answer] at rejected
        | cons first others => rfl

end Source

theorem Account.ending_of_rejected {account : Account} {record : Bool}
    (rejected : (account.runEnd record).Rejected) : account.ending = .finished .rejected := by
  cases answer : account.runEnd record with
  | finished result =>
    rw [answer] at rejected
    exact (ending_of_runEnd answer).trans (congrArg _ rejected)
  | escaped fault => rw [answer] at rejected; cases rejected
  | unfinished => rw [answer] at rejected; cases rejected

theorem Machine.account_ending_ne_rejected (machine : Machine) (rules : Rules) (fuel : Nat)
    (statements : List Stmt) :
    (machine.account rules fuel statements).1.ending ≠ .finished .rejected := by
  unfold account
  split <;> exact nofun

namespace Session

variable {session other : Session} {host : Host} {text : List Char}

def take (session : Session) : Step → Option RunEnd × Session
  | .run host text =>
    (some (session.beginStep.run host text).1, (session.beginStep.run host text).2)
  | .read text => (none, (session.beginStep.parse text).2)

def visit (session : Session) (step : Step) : Visit :=
  ⟨(session.take step).1, (session.take step).2.stream, (session.take step).2.machine,
    (session.take step).2.distances⟩

def visits : Session → List Step → List Visit
  | _, [] => []
  | session, step :: others => session.visit step :: (session.take step).2.visits others

/-- The same but for what was reported, recorded, handed on and noted. -/
structure Alike (session other : Session) : Prop extends session.SameState other where
  distances : other.distances = session.distances

theorem execute_distances (session : Session) (host : Host) (statements : List Stmt) :
    (session.execute host statements).2.distances = session.distances := by
  cases ran : interpret (session.settings.rules host) host.fuel statements session.machine with
  | done value machine => rw [execute_of_done ran, adopt_eq]
  | failed failure machine =>
    cases failure with
    | runtime error => rw [execute_of_runtime ran, report_eq, adopt_eq]
    | fault fault => rw [execute_of_fault ran, adopt_eq]
  | @exhausted machine => rw [execute_of_cut ran, printLines_eq]

theorem run_distances (session : Session) (host : Host) (text : List Char) :
    (session.run host text).2.distances =
      session.distances + Source.recorded session.settings.resolve text := by
  unfold Source.recorded
  cases faulty : (Source.ofText text).reports with
  | cons first others =>
    obtain ⟨notes, read⟩ := session.prepare.parse_eq text
    rw [session.run_of_faulty host (by simp [faulty]), read, reportAll_eq]
    rfl
  | nil =>
    have parsed : Source.parsed? text = some (Source.ofText text).program.statements := by
      simp [Source.parsed?, faulty]
    obtain ⟨notes, begins⟩ := session.run_of_parsed? host parsed
    have same : { session.prepare with notes := notes }.settings.resolve =
        session.settings.resolve := rfl
    rw [begins, runStatements, same]
    cases session.settings.resolve with
    | false => exact execute_distances _ _ _
    | true =>
      cases answer : resolveProgram (Source.ofText text).program.statements with
      | malformed shape errors =>
        dsimp only
        rw [if_pos rfl, reportAll_eq]
        rfl
      | ok statements uses errors =>
        obtain ⟨more, noted⟩ := note_eq
          ({ session.prepare with notes := notes }.reportAll (errors.map ScopeError.report))
          ("resolved " ++ toString uses.length ++ " local references")
        dsimp only
        -- The uses are counted before the statements are executed, which counts nothing.
        rw [if_pos rfl, noted, reportAll_eq]
        cases errors with
        | nil => exact execute_distances _ _ _
        | cons first others => rfl

theorem visit_run (session : Session) (host : Host) (text : List Char) :
    session.visit (.run host text) =
      ⟨some ((session.account host text).1.runEnd session.settings.record),
        (session.account host text).1.emissions, (session.account host text).2,
        session.distances + Source.recorded session.settings.resolve text⟩ := by
  have accounted := run_accounted session.beginStep host text
  have same : session.beginStep.account host text = session.account host text := rfl
  have distances := run_distances session.beginStep host text
  rw [same] at accounted
  rw [visit, take, accounted.ending, accounted.stream, accounted.machine, distances]
  rfl

theorem visit_read (session : Session) (text : List Char) :
    session.visit (.read text) =
      ⟨none, (Source.ofText text).reports.map (⟨.errors, ·.text⟩), session.machine,
        session.distances⟩ := by
  obtain ⟨notes, read⟩ := session.beginStep.parse_eq text
  rw [visit, take, read, reportAll_eq]
  rfl

theorem take_settings (session : Session) (step : Step) :
    (session.take step).2.settings = session.settings := by
  cases step with
  | run host text => exact (run_accounted session.beginStep host text).settings
  | read text =>
    obtain ⟨notes, read⟩ := session.beginStep.parse_eq text
    rw [take, read, reportAll_eq]
    rfl

theorem Alike.visit_eq (alike : session.Alike other) (step : Step) :
    other.visit step = session.visit step := by
  cases step with
  | read text => rw [visit_read, visit_read, alike.machine, alike.distances]
  | run host text =>
    have account : other.account host text = session.account host text := by
      rw [Session.account, Session.account, alike.settings, alike.machine]
    rw [visit_run, visit_run, account, alike.settings, alike.distances]

theorem Alike.take (alike : session.Alike other) (step : Step) :
    (session.take step).2.Alike (other.take step).2 := by
  have same := alike.visit_eq step
  refine ⟨⟨?_, congrArg Visit.machine same⟩, congrArg Visit.distances same⟩
  rw [take_settings, take_settings, alike.settings]

theorem Alike.visits_eq (alike : session.Alike other) (steps : List Step) :
    other.visits steps = session.visits steps := by
  induction steps generalizing session other with
  | nil => rfl
  | cons step others ih => rw [visits, visits, alike.visit_eq step, ih (alike.take step)]

theorem code_of_idle (idle : (session.visit (.run host text)).Idle) :
    ∃ reports, Source.code session.settings.resolve text = .error reports ∧
      session.account host text = (⟨[], reports, .finished .rejected⟩, session.machine) := by
  rw [visit_run] at idle
  have ending := Account.ending_of_rejected (idle _ rfl)
  unfold account at ending ⊢
  cases coded : Source.code session.settings.resolve text with
  | error reports => exact ⟨reports, rfl, rfl⟩
  | ok statements =>
    rw [coded] at ending
    exact absurd ending (Machine.account_ending_ne_rejected _ _ _ _)

theorem alike_of_idle {step : Step} (idle : (session.visit step).Idle) :
    session.Alike (session.take step).2 := by
  have leaves : (session.visit step).machine = session.machine ∧
      (session.visit step).distances = session.distances := by
    cases step with
    | read text => rw [visit_read]; exact ⟨rfl, rfl⟩
    | run host text =>
      obtain ⟨reports, coded, account⟩ := code_of_idle idle
      rw [visit_run, account, Source.recorded_of_code_error coded]
      exact ⟨rfl, rfl⟩
  exact ⟨⟨session.take_settings step, leaves.1⟩, leaves.2⟩

theorem silent_of_idle {step : Step} (idle : (session.visit step).Idle) :
    (session.visit step).Silent := by
  have onErrors : ∀ reports : List Report,
      ∀ emission ∈ reports.map (fun report => (⟨.errors, report.text⟩ : Emission)),
        emission.channel = .errors := by
    simp
  cases step with
  | read text =>
    rw [visit_read]
    exact ⟨onErrors _, nofun⟩
  | run host text =>
    obtain ⟨reports, _, account⟩ := code_of_idle idle
    rw [visit_run, account]
    refine ⟨onErrors reports, ?_⟩
    rintro result ⟨⟩
    refine ⟨ite_self _, ?_⟩
    cases session.settings.record with
    | false => exact nofun
    | true => exact onErrors reports

/-- A step that only reads a text, or a run that is rejected, can be left out without a
change in what is seen of any other step as it ends. -/
theorem visits_of_idle (steps : List Step) (index : Nat) {visit : Visit}
    (seen : (session.visits steps)[index]? = some visit) (idle : visit.Idle) :
    session.visits (steps.eraseIdx index) = (session.visits steps).eraseIdx index ∧
      visit.Silent := by
  -- The induction goes through the steps before the one that is left out, in any session.
  induction steps generalizing session index with
  | nil => cases seen
  | cons step others ih =>
    cases index with
    | zero =>
      cases seen
      exact ⟨(alike_of_idle idle).visits_eq others |>.symm, silent_of_idle idle⟩
    | succ index =>
      obtain ⟨same, silent⟩ := ih index seen
      refine ⟨?_, silent⟩
      rw [List.eraseIdx_cons_succ, visits, visits, List.eraseIdx_cons_succ, same]

end Session

end Lox
