import Lox.Proofs.Limit.Foreruns
import Lox.Proofs.Session.Runs

/-! Runs of a session under a tight and a wide limit on calls.

A run that reports no overflow is the same under every wider limit. One that does has
printed the first lines of the other, and so has a run whose fuel ran out.
-/

set_option autoImplicit false

namespace Lox

/-- A host bears no deeper calls than another, and reads the same clock. -/
structure Host.Within (host other : Host) : Prop where
  fuel : host.fuel ≤ other.fuel
  ceiling : Tighter host.ceiling other.ceiling
  clock : other.clock = host.clock

theorem tighter_none (limit : Option Int) : Tighter limit none := by
  intro bound isBound
  cases isBound

namespace Session

variable {session : Session} {limit wider : Option Int} {host other : Host}

/-- The same session with another limit on nested calls. -/
def limited (session : Session) (limit : Option Int) : Session :=
  { session with settings := { session.settings with limit := limit } }

def Overflowed (session : Session) : Prop :=
  ∃ line, .runtime line "Stack overflow." ∈ session.journal.reports

def printed (session : Session) : List String :=
  (session.stream.filter (·.channel = .output)).map (·.text)

/-- A run without an overflow is the same under a wider limit; any other run prints the
first lines of that one. -/
structure Transparent (wider : Option Int) (tight loose : RunEnd × Session) : Prop where
  same : tight.1 ≠ .unfinished → ¬ tight.2.Overflowed → loose = (tight.1, tight.2.limited wider)
  printed : tight.2.printed <+: loose.2.printed

theorem Transparent.of_eq {tight loose : RunEnd × Session}
    (same : loose = (tight.1, tight.2.limited wider)) : Transparent wider tight loose := by
  subst same
  exact ⟨fun _ _ => rfl, List.prefix_refl _⟩

theorem printed_emit (session : Session) (emissions : List Emission) :
    (session.emit emissions).printed =
      session.printed ++ (emissions.filter (·.channel = .output)).map (·.text) := by
  rw [emit_eq, printed, List.filter_append, List.map_append]
  rfl

theorem printed_report (session : Session) (report : Report) :
    (session.report report).printed = session.printed := by
  rw [Session.report, printed_emit]
  exact List.append_nil _

theorem printed_printLines (session : Session) (lines : List String) :
    (session.printLines lines).printed = session.printed ++ lines := by
  rw [printLines_eq, printed]
  simp [printed, List.filter_map, Function.comp_def]

theorem printed_execute (session : Session) (host : Host) (statements : List Stmt) :
    (session.execute host statements).2.printed = session.printed ++
      (interpret (session.settings.rules host) host.fuel statements
        session.machine).state.printed.toList := by
  cases ran : interpret (session.settings.rules host) host.fuel statements session.machine with
  | done value machine =>
    rw [execute_of_done ran]
    exact printed_printLines _ _
  | failed failure machine =>
    cases failure with
    | runtime error =>
      rw [execute_of_runtime ran, printed_report]
      exact printed_printLines _ _
    | fault fault =>
      rw [execute_of_fault ran]
      exact printed_printLines _ _
  | @exhausted machine =>
    rw [execute_of_cut ran]
    exact printed_printLines _ _

theorem report_limited (session : Session) (report : Report) :
    (session.limited limit).report report = (session.report report).limited limit := by
  rw [report_eq, report_eq]
  rfl

theorem reportAll_limited (reports : List Report) : ∀ session : Session,
    (session.limited limit).reportAll reports = (session.reportAll reports).limited limit := by
  induction reports with
  | nil => exact fun _ => rfl
  | cons first others ih =>
    intro session
    rw [reportAll, List.foldl_cons, ← reportAll, report_limited, ih]
    rfl

theorem note_limited (session : Session) (text : String) :
    (session.limited limit).note text = (session.note text).limited limit := by
  unfold note limited
  dsimp only
  split <;> rfl

theorem parse_limited (session : Session) (text : List Char) :
    (session.limited limit).parse text =
      ((session.parse text).1, (session.parse text).2.limited limit) := by
  simp only [parse, reportAll_limited, note_limited]

theorem interpret_foreruns (rules : Rules) (tighter : Tighter limit wider) {fuel more : Nat}
    (enough : fuel ≤ more) (statements : List Stmt) (machine : Machine) :
    OutcomeIn.Foreruns machine (interpret (rules.limited limit) fuel statements machine)
      (interpret (rules.limited wider) more statements machine) := by
  apply OutcomeIn.Foreruns.returnTo
  apply ((forerunsWith rules tighter enough).executeAll statements machine).bind
  exact fun completion after => .same (.refl after)

theorem rules_limited (session : Session) (limit : Option Int) (within : host.Within other) :
    (session.limited limit).settings.rules other =
      (session.settings.rules host).limited (tighterLimit limit other.ceiling) := by
  rw [Settings.rules, within.clock]
  rfl

theorem execute_limited {statements : List Stmt}
    (same : interpret ((session.limited wider).settings.rules other) other.fuel statements
        session.machine =
      interpret ((session.limited limit).settings.rules host) host.fuel statements
        session.machine) :
    (session.limited wider).execute other statements =
      (((session.limited limit).execute host statements).1,
        ((session.limited limit).execute host statements).2.limited wider) := by
  -- Both sessions come to the same answer and write it down in the same way.
  cases ran : interpret ((session.limited limit).settings.rules host) host.fuel statements
      session.machine with
  | done value machine =>
    rw [execute_of_done (same.trans ran), execute_of_done ran, adopt_eq, adopt_eq]
    rfl
  | failed failure machine =>
    cases failure with
    | runtime error =>
      rw [execute_of_runtime (same.trans ran), execute_of_runtime ran, report_eq, report_eq, adopt_eq,
        adopt_eq]
      rfl
    | fault fault =>
      rw [execute_of_fault (same.trans ran), execute_of_fault ran, adopt_eq, adopt_eq]
      rfl
  | @exhausted machine =>
    rw [execute_of_cut (same.trans ran), execute_of_cut ran, printLines_eq, printLines_eq]
    rfl

theorem Transparent.execute (tighter : Tighter limit wider) (within : host.Within other)
    (session : Session) (statements : List Stmt) :
    Transparent wider ((session.limited limit).execute host statements)
      ((session.limited wider).execute other statements) := by
  have foreruns := interpret_foreruns (session.settings.rules host)
    (tighter.tighterLimit within.ceiling) within.fuel statements session.machine
  rw [← rules_limited session limit ⟨Nat.le_refl _, .refl _, rfl⟩,
    ← rules_limited session wider within] at foreruns
  refine ⟨?_, ?_⟩
  · intro ended shallow
    cases ran : interpret ((session.limited limit).settings.rules host) host.fuel statements
        session.machine with
    | done value after =>
      rw [ran] at foreruns
      exact execute_limited (foreruns.2.trans ran.symm)
    | failed failure after =>
      rw [ran] at foreruns
      rcases foreruns.2 with same | ⟨overflow, _⟩
      · exact execute_limited (same.trans ran.symm)
      · cases failure with
        | fault fault => exact overflow.elim
        | runtime error =>
          -- The refusal is the last report of the run.
          have refusal : error.report = .runtime error.line "Stack overflow." := by
            rw [RuntimeError.report, show error.cause = .stackOverflow from overflow]
            rfl
          refine absurd ?_ shallow
          rw [execute_of_runtime ran, report_eq]
          exact ⟨error.line, List.mem_append_right _ (by rw [refusal]; exact List.mem_cons_self)⟩
    | @exhausted after =>
      rw [execute_of_cut ran] at ended
      exact absurd rfl ended
  · rw [printed_execute, printed_execute]
    exact (List.prefix_append_right_inj _).mpr foreruns.ahead

theorem Transparent.runStatements (tighter : Tighter limit wider) (within : host.Within other)
    (session : Session) (statements : List Stmt) :
    Transparent wider ((session.limited limit).runStatements host statements)
      ((session.limited wider).runStatements other statements) := by
  unfold Session.runStatements
  cases resolving : session.settings.resolve with
  | false =>
    have plain : ∀ limit, (session.limited limit).settings.resolve = false := fun _ => resolving
    rw [plain limit, plain wider]
    exact .execute tighter within session statements
  | true =>
    have resolves : ∀ limit, (session.limited limit).settings.resolve = true := fun _ => resolving
    rw [if_pos (resolves limit), if_pos (resolves wider)]
    cases resolveProgram statements with
    | malformed shape errors =>
      simp only [reportAll_limited]
      exact .of_eq rfl
    | ok resolved uses errors =>
      simp only [reportAll_limited, note_limited]
      generalize (session.reportAll (errors.map ScopeError.report)).note _ = noted
      -- With errors nothing is executed, and no limit is asked for.
      split
      · exact .execute tighter within
          { noted with distances := noted.distances + uses.length } resolved
      · exact .of_eq rfl

/-- The limit on nested calls shows in a run only where it refuses a call: a run that reports no
overflow is the same under any wider limit and under none, and in any case the lines that
it prints are the first that the other prints. -/
theorem run_transparent (tighter : Tighter limit wider) (within : host.Within other)
    (session : Session) :
    (∀ text, Transparent wider ((session.limited limit).run host text)
      ((session.limited wider).run other text)) ∧
    ∀ statements, Transparent wider ((session.limited limit).execute host statements)
      ((session.limited wider).execute other statements) := by
  refine ⟨fun text => ?_, .execute tighter within session⟩
  rw [run_eq, run_eq]
  have prepared : ∀ limit, (session.limited limit).prepare.parse text =
      ((session.prepare.parse text).1, (session.prepare.parse text).2.limited limit) :=
    fun _ => parse_limited session.prepare text
  rw [prepared limit, prepared wider]
  change Transparent wider
    (if (session.prepare.parse text).2.journal.hasStatic then _ else _)
    (if (session.prepare.parse text).2.journal.hasStatic then _ else _)
  split
  · exact .of_eq rfl
  · exact .runStatements tighter within _ _

/-- A function that calls another one, which prints. -/
def nestedCall : List Char :=
  ['f', 'u', 'n', ' ', 'f', '(', ')', '\x7b', 'p', 'r', 'i', 'n', 't', ' ', 't', 'r', 'u', 'e', ';', '\x7d',
    'f', 'u', 'n', ' ', 'g', '(', ')', '\x7b', 'f', '(', ')', ';', 'f', '(', ')', ';', '\x7d', 'g', '(', ')', ';']

/-- Two calls inside each other fit the limit, so without one the run is the same. -/
theorem run_transparent_nestedCall :
    Tighter (some 2) none ∧ Host.Within ⟨20, some 9, fun _ => 0⟩ ⟨30, none, fun _ => 0⟩ ∧
    (((start ⟨true, none, true, false⟩).limited none).run ⟨30, none, fun _ => 0⟩ nestedCall).1 =
      .finished ⟨.success, ["true", "true"], [], [⟨.output, "true"⟩, ⟨.output, "true"⟩]⟩ := by
  have within : Host.Within ⟨20, some 9, fun _ => 0⟩ ⟨30, none, fun _ => 0⟩ :=
    ⟨by decide, tighter_none _, rfl⟩
  refine ⟨tighter_none _, within, ?_⟩
  have transparent := (run_transparent (tighter_none (some 2)) within
    (start ⟨true, none, true, false⟩)).1 nestedCall
  have ended : (((start ⟨true, none, true, false⟩).limited (some 2)).run ⟨20, some 9, fun _ => 0⟩
      nestedCall).1 =
        .finished ⟨.success, ["true", "true"], [], [⟨.output, "true"⟩, ⟨.output, "true"⟩]⟩ := by
    decide +kernel
  have quiet : (((start ⟨true, none, true, false⟩).limited (some 2)).run ⟨20, some 9, fun _ => 0⟩
      nestedCall).2.journal.reports = [] := by
    decide +kernel
  generalize ((start ⟨true, none, true, false⟩).limited (some 2)).run ⟨20, some 9, fun _ => 0⟩
    nestedCall = tight at transparent ended quiet
  have finished : tight.1 ≠ .unfinished := by
    rw [ended]
    exact RunEnd.noConfusion
  have shallow : ¬ tight.2.Overflowed := by
    unfold Overflowed
    rw [quiet]
    exact fun reported => List.not_mem_nil reported.choose_spec
  exact (congrArg Prod.fst (transparent.same finished shallow)).trans ended

end Session

end Lox
