import Lox.Session
import Lox.Proofs.Grammar.Trees
import Lox.Proofs.Scoping.Own
import Lox.Proofs.Scoping.Total

/-! What a run of a session does with its text.

A text with errors leaves the machine as it is. Any other text is executed by the
session as it stands, with an empty journal and no output of its own.
-/

set_option autoImplicit false

namespace Lox

def Resolution.clean? {α : Type} : Resolution α → Option α
  | .ok value _ [] => some value
  | _ => none

namespace Source

def parsed? (text : List Char) : Option (List Stmt) :=
  if (ofText text).reports = [] then some (ofText text).program.statements else none

/-- The statements of a text that has no errors, with the distances of their uses. -/
def resolved? (text : List Char) : Option (List Stmt) :=
  (parsed? text).bind fun statements => (resolveProgram statements).clean?

variable {text : List Char} {statements resolved : List Stmt}

theorem parsed?_eq (parsed : parsed? text = some statements) :
    (ofText text).program.statements = statements := by
  unfold parsed? at parsed
  split at parsed <;> cases parsed
  rfl

theorem shape_of_parsed? (parsed : parsed? text = some statements) :
    Stmt.AllProper statements ∧ Stmt.eraseAll statements = statements := by
  unfold parsed? at parsed
  split at parsed
  next clean =>
    cases parsed
    apply Program.parsed_of_no_errors
    have noErrors := (List.append_eq_nil_iff.mp clean).2
    exact List.map_eq_nil_iff.mp noErrors
  next => cases parsed

theorem locates_of_resolved? (same : resolved? text = some resolved) :
    ∃ statements, parsed? text = some statements ∧ Stmt.LocatesAll [] statements resolved := by
  obtain ⟨statements, parsed, clean⟩ := Option.bind_eq_some_iff.mp same
  refine ⟨statements, parsed, ?_⟩
  unfold Resolution.clean? at clean
  split at clean
  next answer =>
    cases clean
    exact resolveProgram_locates (shape_of_parsed? parsed).1 _ _ answer
  next => cases clean

theorem eraseAll_of_resolved? (same : resolved? text = some resolved) :
    Stmt.eraseAll resolved = (ofText text).program.statements := by
  obtain ⟨statements, parsed, located⟩ := locates_of_resolved? same
  rw [located.1, (shape_of_parsed? parsed).2, parsed?_eq parsed]

/-- Each use of a name in a text without errors is allowed. -/
def Allows (allowed : Site → Prop) (text : List Char) : Prop :=
  ∀ resolved, resolved? text = some resolved → Stmt.EveryUseIn allowed [] resolved

instance (allowed : Site → Prop) [DecidablePred allowed] (text : List Char) :
    Decidable (Allows allowed text) :=
  inferInstanceAs (Decidable (∀ resolved ∈ resolved? text, Stmt.EveryUseIn allowed [] resolved))

/-- No initializer of a local variable in a text without errors assigns that variable. -/
def OwnFree (text : List Char) : Prop :=
  ∀ statements ∈ parsed? text, Stmt.AllOwnFree false statements

instance (text : List Char) : Decidable (OwnFree text) :=
  inferInstanceAs (Decidable (∀ statements ∈ parsed? text, Stmt.AllOwnFree false statements))

theorem allows_located (text : List Char) : Allows Site.Located text := by
  intro resolved same
  obtain ⟨statements, _, located⟩ := locates_of_resolved? same
  exact located.2

theorem OwnFree.allows (free : OwnFree text) : Allows Site.Exact text := by
  intro resolved same
  obtain ⟨statements, parsed, located⟩ := locates_of_resolved? same
  exact located.exact (free statements parsed)

theorem proper_of_resolved? (same : resolved? text = some resolved) : Stmt.AllProper resolved := by
  obtain ⟨statements, parsed, located⟩ := locates_of_resolved? same
  rw [← Stmt.allProper_eraseAll, located.1, Stmt.allProper_eraseAll]
  exact (shape_of_parsed? parsed).1

theorem reports_isStatic (source : Source) : ∀ report ∈ source.reports, report.isStatic = true := by
  intro report member
  rcases List.mem_append.mp member with lexical | grammatical
  · obtain ⟨error, _, rfl⟩ := List.mem_map.mp lexical
    rfl
  · obtain ⟨error, _, rfl⟩ := List.mem_map.mp grammatical
    unfold Syntax.SyntaxError.report Report.atToken
    split <;> rfl

end Source

namespace Journal

def addAll (journal : Journal) (reports : List Report) : Journal := reports.foldl add journal

@[simp] theorem reports_addAll (reports : List Report) : ∀ journal : Journal,
    (journal.addAll reports).reports = journal.reports ++ reports := by
  induction reports with
  | nil => simp [addAll]
  | cons first others ih =>
    intro journal
    rw [addAll, List.foldl_cons, ← addAll, ih]
    simp [add]

theorem hasStatic_addAll {reports : List Report} {report : Report} (member : report ∈ reports)
    (isStatic : report.isStatic = true) (journal : Journal) :
    (journal.addAll reports).hasStatic = true := by
  rw [static_agrees, reports_addAll, List.any_append, List.any_eq_true.mpr ⟨report, member, isStatic⟩,
    Bool.or_true]

end Journal

namespace Session

variable {session : Session} {host : Host} {text : List Char} {statements resolved : List Stmt}

structure SameState (session other : Session) : Prop where
  settings : other.settings = session.settings
  machine : other.machine = session.machine

theorem emit_eq (session : Session) (emissions : List Emission) :
    session.emit emissions =
      { session with
        stream := session.stream ++ emissions
        effects := session.effects ++ if session.settings.record then emissions else [] } := by
  unfold emit
  cases kept : session.settings.record <;> simp [kept]

theorem report_eq (session : Session) (report : Report) :
    session.report report =
      { session with
        journal := session.journal.add report
        stream := session.stream ++ [⟨.errors, report.text⟩]
        effects := session.effects ++
          if session.settings.record then [⟨.errors, report.text⟩] else [] } := by
  rw [Session.report, emit_eq]

theorem printLines_eq (session : Session) (lines : List String) :
    session.printLines lines =
      { session with
        output := session.output ++ if session.settings.record then lines else []
        stream := session.stream ++ lines.map (⟨.output, ·⟩)
        effects := session.effects ++
          if session.settings.record then lines.map (⟨.output, ·⟩) else [] } := by
  unfold printLines
  cases kept : session.settings.record <;> simp [kept, emit_eq]

theorem reportAll_eq (reports : List Report) : ∀ session : Session,
    session.reportAll reports =
      { session with
        journal := session.journal.addAll reports
        stream := session.stream ++ reports.map (⟨.errors, ·.text⟩)
        effects := session.effects ++
          if session.settings.record then reports.map (⟨.errors, ·.text⟩) else [] } := by
  induction reports with
  | nil =>
    intro session
    simp [reportAll, Journal.addAll]
  | cons first others ih =>
    intro session
    rw [reportAll, List.foldl_cons, ← reportAll, ih, report_eq]
    cases session.settings.record <;> simp [Journal.addAll]

theorem sameState_reportAll (reports : List Report) (session : Session) :
    session.SameState (session.reportAll reports) := by
  rw [reportAll_eq]
  exact ⟨rfl, rfl⟩

theorem note_eq (session : Session) (text : String) :
    ∃ notes, session.note text = { session with notes := notes } := by
  unfold note
  split
  · exact ⟨_, rfl⟩
  · exact ⟨session.notes, rfl⟩

theorem counted_eq (session : Session) (text : String) (count : Nat) :
    ∃ notes, { session.note text with distances := (session.note text).distances + count } =
      { session with notes := notes, distances := session.distances + count } := by
  obtain ⟨notes, noted⟩ := note_eq session text
  exact ⟨notes, by rw [noted]⟩

/-- At the beginning of a run nothing is reported and nothing recorded. -/
structure Fresh (session : Session) : Prop where
  output : session.output = []
  effects : session.effects = []
  reports : session.journal.reports = []

theorem run_eq (session : Session) (host : Host) (text : List Char) :
    session.run host text =
      if (session.prepare.parse text).2.journal.hasStatic then
        (.finished ((session.prepare.parse text).2.result .rejected), (session.prepare.parse text).2)
      else (session.prepare.parse text).2.runStatements host (Source.ofText text).program.statements :=
  rfl

/-- Reading a text reports its errors and notes how much it read. -/
theorem parse_eq (session : Session) (text : List Char) :
    ∃ notes, (session.parse text).2 =
      { session.reportAll (Source.ofText text).reports with notes := notes } := by
  obtain ⟨notes, first⟩ := note_eq (session.reportAll (Source.ofText text).reports)
    ("scanned " ++ toString ((Source.ofText text).scan.tokens.length + 1) ++ " tokens")
  obtain ⟨more, second⟩ := note_eq
    { session.reportAll (Source.ofText text).reports with notes := notes }
    ("parsed " ++ toString (Source.ofText text).program.statements.length ++ " statements")
  refine ⟨more, ?_⟩
  unfold parse
  dsimp only
  rw [first, second]

/-- A text without errors of its own is handed on to be resolved or executed. -/
theorem run_of_parsed? (session : Session) (host : Host)
    (parsed : Source.parsed? text = some statements) :
    ∃ notes, session.run host text =
      { session.prepare with notes := notes }.runStatements host statements := by
  unfold Source.parsed? at parsed
  split at parsed
  next clean =>
    cases parsed
    obtain ⟨notes, read⟩ := session.prepare.parse_eq text
    refine ⟨notes, ?_⟩
    rw [run_eq, read, clean]
    rfl
  next => cases parsed

theorem run_of_faulty (session : Session) (host : Host)
    (faulty : (Source.ofText text).reports ≠ []) :
    session.run host text =
      (.finished ((session.prepare.parse text).2.result .rejected),
        (session.prepare.parse text).2) := by
  obtain ⟨notes, read⟩ := session.prepare.parse_eq text
  have static : (session.prepare.parse text).2.journal.hasStatic = true := by
    obtain ⟨first, member⟩ := List.exists_mem_of_ne_nil _ faulty
    rw [read, reportAll_eq]
    exact Journal.hasStatic_addAll member ((Source.ofText text).reports_isStatic first member) _
  rw [run_eq, if_pos static]

theorem run_of_not_parsed? (session : Session) (host : Host) (faulty : Source.parsed? text = none) :
    ∃ result after, session.run host text = (.finished result, after) ∧
      result.status = .rejected ∧ session.SameState after := by
  unfold Source.parsed? at faulty
  split at faulty
  · cases faulty
  next some =>
    obtain ⟨notes, read⟩ := session.prepare.parse_eq text
    refine ⟨_, _, session.run_of_faulty host some, rfl, ?_⟩
    rw [read]
    have same := sameState_reportAll (Source.ofText text).reports session.prepare
    exact ⟨same.settings, same.machine⟩

/-- Where names are resolved, statements without errors are executed with their
distances. -/
theorem runStatements_of_clean? (session : Session) (host : Host)
    (resolving : session.settings.resolve = true)
    (clean : (resolveProgram statements).clean? = some resolved) :
    ∃ notes distances, session.runStatements host statements =
      { session with notes := notes, distances := distances }.execute host resolved := by
  unfold Resolution.clean? at clean
  split at clean
  next uses answer =>
    cases clean
    obtain ⟨notes, noted⟩ := counted_eq session
      ("resolved " ++ toString uses.length ++ " local references") uses.length
    refine ⟨notes, session.distances + uses.length, ?_⟩
    rw [runStatements, if_pos resolving, answer]
    exact congrArg (fun counted : Session => counted.execute host resolved) noted
  next => cases clean

/-- Where names are resolved, a text without any errors is executed with its
distances. -/
theorem run_of_resolved? (session : Session) (host : Host)
    (resolving : session.settings.resolve = true) (resolved_ : Source.resolved? text = some resolved) :
    ∃ notes distances, session.run host text =
      { session.prepare with notes := notes, distances := distances }.execute host resolved := by
  obtain ⟨statements, parsed, clean⟩ := Option.bind_eq_some_iff.mp resolved_
  obtain ⟨notes, begins⟩ := session.run_of_parsed? host parsed
  rw [begins]
  exact runStatements_of_clean? { session.prepare with notes := notes } host resolving clean

theorem run_of_not_resolved? (session : Session) (host : Host)
    (resolving : session.settings.resolve = true) (faulty : Source.resolved? text = none) :
    ∃ result after, session.run host text = (.finished result, after) ∧
      result.status = .rejected ∧ session.SameState after := by
  cases parsed : Source.parsed? text with
  | none => exact session.run_of_not_parsed? host parsed
  | some statements =>
    obtain ⟨notes, begins⟩ := session.run_of_parsed? host parsed
    -- The resolver does give a tree, so what is in the way are its errors.
    obtain ⟨resolved, uses, errors, answer⟩ :=
      resolveProgram_total (Source.shape_of_parsed? parsed).1
    have some : errors ≠ [] := by
      rintro rfl
      simp [Source.resolved?, parsed, answer, Resolution.clean?] at faulty
    have resolves : { session.prepare with notes := notes }.settings.resolve = true := resolving
    rw [begins, runStatements, if_pos resolves, answer]
    dsimp only
    rw [if_neg (by simpa using some)]
    obtain ⟨more, noted⟩ := note_eq
      ({ session.prepare with notes := notes }.reportAll (errors.map ScopeError.report))
      ("resolved " ++ toString uses.length ++ " local references")
    refine ⟨_, _, rfl, rfl, ?_⟩
    rw [noted]
    have same := sameState_reportAll (errors.map ScopeError.report)
      { session.prepare with notes := notes }
    exact ⟨same.settings, same.machine⟩

section
variable {machine : Machine}

theorem execute_of_done {value : Unit}
    (ran : interpret (session.settings.rules host) host.fuel statements session.machine =
      .done value machine) :
    session.execute host statements =
      (.finished ((session.adopt machine).result .success), session.adopt machine) := by
  simp only [execute, ran]

theorem execute_of_runtime {error : RuntimeError}
    (ran : interpret (session.settings.rules host) host.fuel statements session.machine =
      .failed (.runtime error) machine) :
    session.execute host statements =
      (.finished (((session.adopt machine).report error.report).result .runtimeError),
        (session.adopt machine).report error.report) := by
  simp only [execute, ran]

theorem execute_of_fault {fault : Fault}
    (ran : interpret (session.settings.rules host) host.fuel statements session.machine =
      .failed (.fault fault) machine) :
    session.execute host statements = (.escaped fault, session.adopt machine) := by
  simp only [execute, ran]

theorem execute_of_cut
    (ran : interpret (session.settings.rules host) host.fuel statements session.machine =
      .cut machine) :
    session.execute host statements =
      (.unfinished, session.printLines machine.printed.toList) := by
  simp only [execute, ran]

theorem adopt_eq (session : Session) (machine : Machine) :
    session.adopt machine =
      { session with
        machine := { machine with printed := #[] }
        output := session.output ++ if session.settings.record then machine.printed.toList else []
        stream := session.stream ++ machine.printed.toList.map (⟨.output, ·⟩)
        effects := session.effects ++
          if session.settings.record then machine.printed.toList.map (⟨.output, ·⟩) else [] } := by
  rw [adopt, printLines_eq]

end

theorem execute_settings (session : Session) (host : Host) (statements : List Stmt) :
    (session.execute host statements).2.settings = session.settings := by
  cases ran : interpret (session.settings.rules host) host.fuel statements session.machine with
  | done value machine => rw [execute_of_done ran, adopt_eq]
  | failed failure machine =>
    cases failure with
    | runtime error => rw [execute_of_runtime ran, report_eq, adopt_eq]
    | fault fault => rw [execute_of_fault ran, adopt_eq]
  | @exhausted machine => rw [execute_of_cut ran, printLines_eq]

/-- A session after some runs, whatever they ended in. -/
def after (session : Session) (runs : List (Host × List Char)) : Session :=
  runs.foldl (fun session run => (session.run run.1 run.2).2) session

end Session

end Lox
