import Lox.Proofs.Session.Traces

/-! What a run records of itself.

The answer of a recording session repeats what was handed on, and its status tells which
reports there were. A session that keeps no record goes through the same steps.
-/

set_option autoImplicit false

namespace Lox

namespace Channel

def texts (channel : Channel) (emissions : List Emission) : List String :=
  (emissions.filter (·.channel = channel)).map (·.text)

theorem texts_append (channel : Channel) (first second : List Emission) :
    channel.texts (first ++ second) = channel.texts first ++ channel.texts second := by
  rw [texts, List.filter_append, List.map_append]
  rfl

theorem texts_map (channel : Channel) (texts : List String) :
    channel.texts (texts.map (⟨channel, ·⟩)) = texts := by
  rw [Channel.texts, List.filter_eq_self.mpr (by simp), List.map_map]
  exact List.map_id texts

theorem texts_map_other {channel other : Channel} (differ : other ≠ channel)
    (texts : List String) : channel.texts (texts.map (⟨other, ·⟩)) = [] := by
  rw [Channel.texts, List.filter_eq_nil_iff.mpr (by simpa using fun _ _ => differ)]
  rfl

end Channel

/-- The answer of a run agrees with the texts that the run handed on and with its reports. -/
structure RunResult.Agrees (result : RunResult) (handedOn : List Emission)
    (reports : List Report) : Prop where
  effects : result.effects = handedOn
  output : result.output = Channel.output.texts handedOn
  errors : result.errors = Channel.errors.texts handedOn
  messages : result.errors = reports.map Report.text
  success : result.status = .success ↔ reports = []
  rejected : result.status = .rejected ↔ ∃ report ∈ reports, report.isStatic = true
  silent : result.status = .rejected → ∀ effect ∈ result.effects, effect.channel = .errors
  failed : result.status = .runtimeError ↔
    ∃ report, reports = [report] ∧ report.isRuntime = true ∧
      result.effects.getLast? = some ⟨.errors, report.text⟩

namespace Account

variable {account : Account}

/-- The ways in which a run can go: its reports are those of its text or of one failure. -/
inductive Coherent : Account → Prop where
  | success (lines : List String) : Coherent ⟨lines, [], .finished .success⟩
  | rejected {reports : List Report} :
      reports ≠ [] → (∀ report ∈ reports, report.isStatic = true) →
      Coherent ⟨[], reports, .finished .rejected⟩
  | failed (lines : List String) {report : Report} :
      report.isRuntime = true → Coherent ⟨lines, [report], .finished .runtimeError⟩
  | escaped (lines : List String) (fault : Fault) : Coherent ⟨lines, [], .escaped fault⟩
  | unfinished (lines : List String) : Coherent ⟨lines, [], .unfinished⟩

theorem emissions_eq (account : Account) :
    account.emissions = account.lines.map (⟨.output, ·⟩) ++
      (account.reports.map Report.text).map (⟨.errors, ·⟩) := by
  rw [emissions, List.map_map]
  rfl

theorem texts_output (account : Account) :
    Channel.output.texts account.emissions = account.lines := by
  rw [emissions_eq, Channel.texts_append, Channel.texts_map,
    Channel.texts_map_other (show Channel.errors ≠ .output by decide), List.append_nil]

theorem texts_errors (account : Account) :
    Channel.errors.texts account.emissions = account.reports.map Report.text := by
  rw [emissions_eq, Channel.texts_append, Channel.texts_map,
    Channel.texts_map_other (show Channel.output ≠ .errors by decide), List.nil_append]

theorem Coherent.agrees {result : RunResult} (coherent : account.Coherent)
    (answer : account.runEnd true = .finished result) :
    result.Agrees account.emissions account.reports := by
  have output := account.texts_output.symm
  have errors := account.texts_errors.symm
  cases coherent with
  | escaped lines fault => cases answer
  | unfinished lines => cases answer
  | success lines =>
    cases answer
    exact ⟨rfl, output, errors, rfl, by simp, by simp, by simp, by simp⟩
  | failed lines isRuntime =>
    cases answer
    refine ⟨rfl, output, errors, rfl, by simp, ?_, by simp, ?_⟩
    · simpa [Report.isRuntime] using isRuntime
    · simpa [emissions] using isRuntime
  | @rejected reports some static =>
    cases answer
    have first := reports.head_mem some
    refine ⟨rfl, output, errors, rfl, ?_, ?_, ?_, ?_⟩
    · simpa using some
    · simpa using ⟨_, first, static _ first⟩
    · simp [emissions]
    · -- The only report of a failed run is no static one.
      constructor
      · simp
      · rintro ⟨report, rfl, isRuntime, _⟩
        simp [Report.isRuntime, static report] at isRuntime

theorem Coherent.status_eq {status : Status} (coherent : account.Coherent)
    (ends : account.ending = .finished status) :
    status =
      if account.reports.any Report.isStatic then .rejected
      else if account.reports.any Report.isRuntime then .runtimeError
      else .success := by
  cases coherent with
  | escaped lines fault => cases ends
  | unfinished lines => cases ends
  | success lines =>
    cases ends
    rfl
  | failed lines isRuntime =>
    cases ends
    have notStatic := isRuntime
    rw [Report.isRuntime, Bool.not_eq_true'] at notStatic
    simp [isRuntime, notStatic]
  | rejected some static =>
    cases ends
    rw [if_pos (List.any_eq_true.mpr ⟨_, List.head_mem some, static _ (List.head_mem some)⟩)]

end Account

theorem Machine.account_coherent (machine : Machine) (rules : Rules) (fuel : Nat)
    (statements : List Stmt) : (machine.account rules fuel statements).1.Coherent := by
  unfold account
  split
  · exact .success _
  · exact .failed _ rfl
  · exact .escaped _ _
  · exact .unfinished _

theorem Report.isStatic_atToken (token : Token) (message : String) :
    (atToken token message).isStatic = true := by
  unfold atToken
  split <;> rfl

theorem Source.reports_of_code_error {resolve : Bool} {text : List Char} {reports : List Report}
    (rejected : code resolve text = .error reports) :
    reports ≠ [] ∧ ∀ report ∈ reports, report.isStatic = true := by
  unfold code at rejected
  cases faulty : (ofText text).reports with
  | cons first others =>
    rw [faulty] at rejected
    cases rejected
    exact ⟨by simp, faulty ▸ (ofText text).reports_isStatic⟩
  | nil =>
    rw [faulty] at rejected
    have parsed : parsed? text = some (ofText text).program.statements := by
      simp [parsed?, faulty]
    obtain ⟨resolved, uses, errors, answer⟩ := resolveProgram_total (shape_of_parsed? parsed).1
    cases resolve with
    | false => cases rejected
    | true =>
      dsimp only at rejected
      rw [if_pos rfl, answer] at rejected
      -- The errors of a text without any of its own are the resolver's, which are told at tokens.
      cases errors with
      | nil => cases rejected
      | cons first others =>
        cases rejected
        refine ⟨by simp, ?_⟩
        intro report member
        obtain ⟨error, _, rfl⟩ := List.mem_map.mp member
        exact Report.isStatic_atToken error.token error.cause.message

def RunResult.unrecorded (result : RunResult) : RunResult :=
  { result with output := [], effects := [] }

def RunEnd.unrecorded : RunEnd → RunEnd
  | .finished result => .finished result.unrecorded
  | .escaped fault => .escaped fault
  | .unfinished => .unfinished

def Visit.unrecorded (visit : Visit) : Visit :=
  { visit with answer := visit.answer.map RunEnd.unrecorded }

theorem Account.runEnd_unrecorded (account : Account) (record : Bool) :
    (account.runEnd record).unrecorded = account.runEnd false := by
  unfold runEnd
  cases account.ending <;> rfl

namespace Session

variable {session : Session} {host : Host} {text : List Char}

def unrecorded (session : Session) : Session :=
  { session with
    settings := { session.settings with record := false }
    output := []
    past := session.past.map fun _ => []
    effects := [] }

theorem account_coherent (session : Session) (host : Host) (text : List Char) :
    (session.account host text).1.Coherent := by
  unfold account
  split
  · exact Machine.account_coherent _ _ _ _
  next reports rejected =>
    obtain ⟨some, static⟩ := Source.reports_of_code_error rejected
    exact .rejected some static

/-- The status of a run is read off the flags behind it, a static error before a runtime
error. -/
theorem status_eq_of_flags {result : RunResult} {after : Session}
    (ran : session.run host text = (.finished result, after)) :
    result.status =
      if after.journal.hasStatic then .rejected
      else if after.journal.hasRuntime then .runtimeError
      else .success := by
  have accounted := session.run_accounted host text
  have ending := accounted.ending
  have reports := accounted.reports
  rw [ran] at ending reports
  rw [after.journal.static_agrees, after.journal.runtime_agrees, reports]
  refine (session.account_coherent host text).status_eq ?_
  exact Account.ending_of_runEnd ending.symm

theorem agrees_of_take {result : RunResult} {after : Session}
    (recording : session.settings.record = true)
    (taken : session.take (.run host text) = (some (.finished result), after)) :
    result.Agrees after.stream after.journal.reports := by
  have accounted := run_accounted session.beginStep host text
  have answer : (session.beginStep.run host text).1 = .finished result :=
    Option.some.inj (congrArg Prod.fst taken)
  have state : (session.beginStep.run host text).2 = after := congrArg Prod.snd taken
  have ending := accounted.ending
  rw [answer, show session.beginStep.settings.record = true from recording] at ending
  have agrees := (session.beginStep.account_coherent host text).agrees ending.symm
  rw [← state, accounted.stream, accounted.reports]
  exact agrees

theorem visit_unrecorded {other : Session} (alike : session.unrecorded.Alike other) (step : Step) :
    other.visit step = (session.visit step).unrecorded := by
  rw [alike.visit_eq step]
  cases step with
  | read text => rw [visit_read, visit_read]; rfl
  | run host text =>
    rw [visit_run, visit_run, Visit.unrecorded]
    dsimp only
    rw [Option.map_some, Account.runEnd_unrecorded]
    rfl

theorem alike_take {other : Session} (alike : session.unrecorded.Alike other) (step : Step) :
    (session.take step).2.unrecorded.Alike (other.take step).2 := by
  have same := visit_unrecorded alike step
  have machines : (other.take step).2.machine = (session.take step).2.machine :=
    congrArg Visit.machine same
  have counts : (other.take step).2.distances = (session.take step).2.distances :=
    congrArg Visit.distances same
  have settings : (other.take step).2.settings = { session.settings with record := false } := by
    rw [take_settings, alike.settings]
    rfl
  rw [← session.take_settings step] at settings
  exact ⟨⟨settings, machines⟩, counts⟩

theorem visits_unrecorded {other : Session} (alike : session.unrecorded.Alike other)
    (steps : List Step) : other.visits steps = (session.visits steps).map Visit.unrecorded := by
  induction steps generalizing session other with
  | nil => rfl
  | cons step others ih =>
    rw [visits, visits, List.map_cons, visit_unrecorded alike step, ih (alike_take alike step)]

/-- The answer of a recording session repeats what the run handed on, in order, its errors are
the reports of the run and its status tells of which kind they are. The same session
without a record answers alike at every step, hands on the same texts and comes to the same
machine, but gives no output and no effects. -/
theorem records_agree (session : Session) :
    (session.settings.record = true → ∀ (host : Host) (text : List Char) (result : RunResult)
      (after : Session), session.take (.run host text) = (some (.finished result), after) →
      result.Agrees after.stream after.journal.reports) ∧
    ∀ steps : List Step,
      session.unrecorded.visits steps = (session.visits steps).map Visit.unrecorded := by
  constructor
  · intro recording host text result after taken
    exact agrees_of_take recording taken
  · exact visits_unrecorded ⟨⟨rfl, rfl⟩, rfl⟩

/-- A program that prints a line and then fails. -/
def failsLate : List Char :=
  ['p', 'r', 'i', 'n', 't', ' ', 't', 'r', 'u', 'e', ';', '-', 'n', 'i', 'l', ';']

theorem records_agree_failsLate :
    let session := start ⟨true, none, true, false⟩
    let host : Host := ⟨20, none, fun _ => 0⟩
    ∃ result after, session.take (.run host failsLate) = (some (.finished result), after) ∧
      result.status = .runtimeError ∧ result.output = ["true"] ∧
      result.Agrees after.stream after.journal.reports := by
  intro session host
  let result : RunResult := ⟨.runtimeError, ["true"], ["Operand must be a number.\n[line 1]"],
    [⟨.output, "true"⟩, ⟨.errors, "Operand must be a number.\n[line 1]"⟩]⟩
  have answer : (session.take (.run host failsLate)).1 = some (.finished result) := by
    decide +kernel
  have taken : session.take (.run host failsLate) =
      (some (.finished result), (session.take (.run host failsLate)).2) := by
    rw [← answer]
  exact ⟨result, _, taken, rfl, rfl, (records_agree session).1 rfl host failsLate result _ taken⟩

end Session

end Lox
