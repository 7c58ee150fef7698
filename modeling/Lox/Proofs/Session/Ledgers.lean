import Lox.Proofs.Session.Traces

/-! The lists of effects that answers hold.

The answer of a run shares its list of effects with the session, which goes on writing to
it until the next run begins. So a text that is only read is heard of in the answer of the
run before it, while its other parts stay as they were returned.
-/

set_option autoImplicit false

namespace Lox

/-- What the texts that are only read before the next run report. -/
def Step.readReports : List Step → List Emission
  | [] | .run .. :: _ => []
  | .read text :: others => (Source.ofText text).reports.map (⟨.errors, ·.text⟩) ++ readReports others

namespace Session

variable {session : Session} {host : Host} {text : List Char}

def through (session : Session) : List Step → Session
  | [] => session
  | step :: others => (session.take step).2.through others

theorem through_append (first second : List Step) : ∀ session : Session,
    session.through (first ++ second) = (session.through first).through second := by
  induction first with
  | nil => exact fun _ => rfl
  | cons step others ih => exact fun session => ih (session.take step).2

theorem through_settings (steps : List Step) : ∀ session : Session,
    (session.through steps).settings = session.settings := by
  induction steps with
  | nil => exact fun _ => rfl
  | cons step others ih => exact fun session => (ih _).trans (session.take_settings step)

/-- A run has left certain lists of effects behind, and its answer has the one that the
session writes to. -/
structure Shares (past : List (List Emission)) (ran : RunEnd × Session) : Prop where
  past : ran.2.past = past
  effects : ∀ result, ran.1 = .finished result → result.effects = ran.2.effects

theorem Shares.finished {past : List (List Emission)} {status : Status}
    (same : session.past = past) : Shares past (.finished (session.result status), session) := by
  refine ⟨same, ?_⟩
  rintro result ⟨⟩
  rfl

theorem Shares.escaped {past : List (List Emission)} {fault : Fault}
    (same : session.past = past) : Shares past (.escaped fault, session) := by
  refine ⟨same, ?_⟩
  rintro result ⟨⟩

theorem execute_shares {past : List (List Emission)} (same : session.past = past) (host : Host)
    (statements : List Stmt) : Shares past (session.execute host statements) := by
  cases ran : interpret (session.settings.rules host) host.fuel statements session.machine with
  | done value machine =>
    rw [execute_of_done ran, adopt_eq]
    exact .finished same
  | failed failure machine =>
    cases failure with
    | runtime error =>
      rw [execute_of_runtime ran, report_eq, adopt_eq]
      exact .finished same
    | fault fault =>
      rw [execute_of_fault ran, adopt_eq]
      exact .escaped same
  | @exhausted machine =>
    rw [execute_of_cut ran, printLines_eq]
    refine ⟨same, ?_⟩
    rintro result ⟨⟩

theorem runStatements_shares {past : List (List Emission)} (same : session.past = past)
    (host : Host) (statements : List Stmt) :
    Shares past (session.runStatements host statements) := by
  rw [runStatements]
  cases session.settings.resolve with
  | false => exact execute_shares same host statements
  | true =>
    rw [if_pos rfl]
    cases resolveProgram statements with
    | malformed shape errors =>
      dsimp only
      rw [reportAll_eq]
      exact .escaped same
    | ok resolved uses errors =>
      obtain ⟨notes, noted⟩ := note_eq (session.reportAll (errors.map ScopeError.report))
        ("resolved " ++ toString uses.length ++ " local references")
      dsimp only
      rw [noted, reportAll_eq]
      cases errors with
      | nil =>
        refine execute_shares ?_ host resolved
        exact same
      | cons first others => exact .finished same

theorem parse_past (session : Session) (text : List Char) :
    (session.parse text).2.past = session.past := by
  obtain ⟨notes, read⟩ := session.parse_eq text
  rw [read, reportAll_eq]

theorem parse_effects (session : Session) (text : List Char) :
    (session.parse text).2.effects = session.effects ++
      if session.settings.record then
        (Source.ofText text).reports.map (⟨.errors, ·.text⟩) else [] := by
  obtain ⟨notes, read⟩ := session.parse_eq text
  rw [read, reportAll_eq]

theorem run_shares (session : Session) (host : Host) (text : List Char) :
    Shares (session.past ++ [session.effects]) (session.run host text) := by
  have same : (session.prepare.parse text).2.past = session.past ++ [session.effects] :=
    session.prepare.parse_past text
  rw [run_eq]
  cases (session.prepare.parse text).2.journal.hasStatic with
  | true =>
    rw [if_pos rfl]
    exact .finished same
  | false =>
    rw [if_neg Bool.false_ne_true]
    exact runStatements_shares same host _

theorem past_prefix_through (steps : List Step) : ∀ session : Session,
    session.past <+: (session.through steps).past := by
  induction steps with
  | nil => exact fun session => List.prefix_refl _
  | cons step others ih =>
    intro session
    refine List.IsPrefix.trans ?_ (ih (session.take step).2)
    cases step with
    | read text =>
      rw [take, parse_past]
      exact List.prefix_refl _
    | run host text =>
      have begun := (session.beginStep.run_shares host text).past
      rw [take, begun]
      exact List.prefix_append _ _

/-- Behind any steps, the list that a session writes to has got the reports of the texts
that were read before the next run. -/
theorem ledgers_through (steps : List Step) : ∀ session : Session,
    (session.through steps).ledgers[session.ledger]? =
      some (session.effects ++ if session.settings.record then Step.readReports steps else []) := by
  induction steps with
  | nil =>
    intro session
    rw [through, ledgers, ledger, List.getElem?_concat_length, Step.readReports, ite_self,
      List.append_nil]
  | cons step others ih =>
    intro session
    cases step with
    | read text =>
      have later := ih (session.take (.read text)).2
      have past : (session.take (.read text)).2.past = session.past :=
        session.beginStep.parse_past text
      have effects := session.beginStep.parse_effects text
      rw [ledger, past, take_settings, take, effects, List.append_assoc] at later
      rw [through, ledger, take, later, Step.readReports]
      cases kept : session.settings.record <;> simp [beginStep, kept]
    | run host text =>
      -- The next run begins a list of its own, so this one is never written to again.
      have begun := (session.beginStep.run_shares host text).past
      obtain ⟨rest, same⟩ := past_prefix_through others (session.take (.run host text)).2
      rw [take, begun] at same
      have kept : (session.through (.run host text :: others)).past =
          session.past ++ [session.effects] ++ rest := same.symm
      rw [ledgers, kept, ledger, Step.readReports, ite_self, List.append_nil, List.append_assoc,
        List.append_assoc, List.getElem?_append_right (Nat.le_refl _), Nat.sub_self]
      rfl

theorem reread_through {result : RunResult} (later : List Step)
    (finished : (session.take (.run host text)).1 = some (.finished result)) :
    ((session.take (.run host text)).2.through later).reread
        (session.take (.run host text)).2.ledger result =
      { result with
        effects := result.effects ++
          if session.settings.record then Step.readReports later else [] } := by
  have held := ledgers_through later (session.take (.run host text)).2
  have answer := (session.beginStep.run_shares host text).effects result (Option.some.inj finished)
  rw [take_settings] at held
  rw [reread, List.getD_eq_getElem?_getD, held, Option.getD_some, answer]
  rfl

/-- Steps can be left out, but for the effects that answers hold. A step that only reads a
text, or a run that is rejected, can be left out without a change in what is seen of any
other step as it ends, and none of the program's output is handed on in it. But the answer
of a run goes on sharing its effects with the session: behind all steps it has got, if
effects are recorded, the reports of the texts that were only read before the next run, and
so shows which of these are left out. -/
theorem visits_eraseIdx (settings : Settings) (steps : List Step) :
    (∀ (index : Nat) (visit : Visit), ((start settings).visits steps)[index]? = some visit →
      visit.Idle →
      (start settings).visits (steps.eraseIdx index) =
        ((start settings).visits steps).eraseIdx index ∧ visit.Silent) ∧
    ∀ (before later : List Step) (host : Host) (text : List Char) (result : RunResult),
      steps = before ++ .run host text :: later →
      let ran := ((start settings).through before).take (.run host text)
      ran.1 = some (.finished result) →
      ((start settings).through steps).reread ran.2.ledger result =
        { result with
          effects := result.effects ++ if settings.record then Step.readReports later else [] } := by
  refine ⟨fun index visit seen idle => visits_of_idle steps index seen idle, ?_⟩
  rintro before later host text result rfl ran finished
  have reread := reread_through later finished
  rw [through_settings] at reread
  rw [through_append]
  exact reread

/-- Between a definition and its use, a text that does not parse is read and one whose
only variable is read in its own initializer is run. -/
def ownInitializer : List Step :=
  let host : Host := ⟨20, none, fun _ => 0⟩
  [.run host ['v', 'a', 'r', ' ', 'a', '=', 't', 'r', 'u', 'e', ';'],
    .read ['p', 'r', 'i', 'n', 't', ';'],
    .run host ['\x7b', 'v', 'a', 'r', ' ', 'b', '=', 'b', ';', '\x7d'],
    .run host ['p', 'r', 'i', 'n', 't', ' ', 'a', ';']]

/-- Both steps in between hand a report on, and neither is missed where the others end. But
the report of the text that is only read is found in the answer of the definition later on,
and not if the step is left out. -/
theorem visits_eraseIdx_ownInitializer :
    let session := start ⟨true, none, true, false⟩
    let defined : RunResult := ⟨.success, [], [], []⟩
    (session.visits ownInitializer).map (·.handedOn.length) = [0, 1, 1, 1] ∧
      session.visits (ownInitializer.eraseIdx 2) = (session.visits ownInitializer).eraseIdx 2 ∧
      session.visits (ownInitializer.eraseIdx 1) = (session.visits ownInitializer).eraseIdx 1 ∧
      (session.through ownInitializer).reread 1 defined =
        { defined with effects := [⟨.errors, "[line 1] Error at ';': Expect expression."⟩] } ∧
      (session.through (ownInitializer.eraseIdx 1)).reread 1 defined = defined := by
  intro session defined
  have handedOn : (session.visits ownInitializer).map (·.handedOn.length) = [0, 1, 1, 1] := by
    decide +kernel
  have idle : ∀ visit ∈ (session.visits ownInitializer)[2]?, visit.Idle := by
    decide +kernel
  have reads : ∀ visit ∈ (session.visits ownInitializer)[1]?, visit.Idle := by
    decide +kernel
  have finished : (session.visits ownInitializer)[0]?.bind (·.answer) =
      some (.finished defined) := by
    decide +kernel
  have reported : Step.readReports (ownInitializer.drop 1) =
      [⟨.errors, "[line 1] Error at ';': Expect expression."⟩] := by
    decide +kernel
  have later := (visits_eraseIdx ⟨true, none, true, false⟩ ownInitializer).2 []
    (ownInitializer.drop 1) _ _ defined rfl finished
  have without := (visits_eraseIdx ⟨true, none, true, false⟩ (ownInitializer.eraseIdx 1)).2 []
    (ownInitializer.drop 2) _ _ defined rfl finished
  refine ⟨handedOn, ((visits_eraseIdx _ ownInitializer).1 2 _ rfl (idle _ rfl)).1,
    ((visits_eraseIdx _ ownInitializer).1 1 _ rfl (reads _ rfl)).1, ?_, without⟩
  rw [reported] at later
  exact later

end Session

end Lox
