import Lox.Proofs.Run.Faults
import Lox.Proofs.Session.Runs

/-! What can go wrong in a session that resolves its names.

Between runs the machine stands at the globals and its store is settled, whatever
the runs ended in. So only one kind of fault escapes a run: the assignment to a local
variable inside its own initializer, while the frame does not bind the variable.
-/

set_option autoImplicit false

namespace Lox

variable {allowed : Site → Prop}

structure Machine.Rests (allowed : Site → Prop) (machine : Machine) : Prop where
  sane : machine.Sane allowed
  frame : machine.frame = globals

theorem Machine.Rests.stands {machine : Machine} (rests : machine.Rests allowed) :
    ∃ wholes, machine.Stands allowed wholes [] := by
  obtain ⟨wholes, settled⟩ := rests.sane
  exact ⟨wholes, settled, rests.frame ▸ settled.root⟩

theorem Machine.Rests.clear {machine : Machine} (rests : machine.Rests allowed) :
    { machine with printed := #[] }.Rests allowed :=
  ⟨rests.sane, rests.frame⟩

theorem interpret_rests {rules : Rules} {fuel : Nat} {statements : List Stmt} {machine : Machine}
    (rests : machine.Rests allowed) (proper : Stmt.AllProper statements)
    (uses : Stmt.EveryUseIn allowed [] statements) :
    (interpret rules fuel statements machine).Ends (fun _ after => after.Rests allowed)
      fun after => after.Rests allowed := by
  obtain ⟨wholes, stands⟩ := rests.stands
  unfold interpret
  rw [OutcomeIn.ends_mapState]
  refine OutcomeIn.Ends.bind (OutcomeIn.Ends.mono
    ((settlesWith allowed rules fuel).executeAll stands proper uses
      fun name _ => Region.open_nil name) id ?_) ?_
  · exact fun sane => ⟨sane, rfl⟩
  · rintro completion after ⟨more, settles⟩
    exact ⟨settles.sane, rfl⟩

theorem Machine.value?_initial (id : Nat) (name : String) :
    Machine.initial.store.value? id name = none := by
  unfold Machine.initial
  rw [Store.value?_add]
  rfl

theorem Machine.rests_initial : Machine.initial.Rests allowed := by
  refine ⟨⟨[[]], ?_, ?_, ?_, ?_⟩, rfl⟩
  · rfl
  · exact .root (Store.frame?_add_next Store.empty none) rfl
  · intro id name _ binds
    rw [Store.binds_eq, value?_initial] at binds
    cases binds
  · intro id name value read
    rw [value?_initial] at read
    cases read

theorem Machine.Rests.define {machine : Machine} {name : String} {value : Value}
    (rests : machine.Rests allowed)
    (settled : ∀ wholes, value.Settled allowed wholes (machine.define name value).store) :
    (machine.define name value).Rests allowed := by
  obtain ⟨wholes, stands⟩ := rests.stands
  exact ⟨⟨wholes, stands.settled.put (settled wholes) (.inl rests.frame)⟩, rests.frame⟩

namespace Session

variable {session : Session} {host : Host} {text : List Char} {statements resolved : List Stmt}

theorem SameState.rests {other : Session} (same : session.SameState other)
    (rests : session.machine.Rests allowed) : other.machine.Rests allowed := by
  rw [same.machine]
  exact rests

theorem execute_rests (rests : session.machine.Rests allowed) (proper : Stmt.AllProper statements)
    (uses : Stmt.EveryUseIn allowed [] statements) :
    (session.execute host statements).2.machine.Rests allowed := by
  have ends : (interpret (session.settings.rules host) host.fuel statements session.machine).Ends
      _ _ := interpret_rests rests proper uses
  cases ran : interpret (session.settings.rules host) host.fuel statements session.machine with
  | done value after =>
    rw [ran] at ends
    rw [execute_of_done ran, adopt_eq]
    exact ends.clear
  | failed failure after =>
    rw [ran] at ends
    cases failure with
    | runtime error =>
      rw [execute_of_runtime ran, report_eq, adopt_eq]
      exact ends.clear
    | fault fault =>
      rw [execute_of_fault ran, adopt_eq]
      exact ends.clear
  -- A run without an end leaves the machine as it was before.
  | @exhausted after =>
    rw [execute_of_cut ran, printLines_eq]
    exact rests

structure Ready (allowed : Site → Prop) (session : Session) : Prop where
  resolving : session.settings.resolve = true
  rests : session.machine.Rests allowed

theorem ready_start {settings : Settings} (resolving : settings.resolve = true) :
    (start settings).Ready allowed :=
  ⟨resolving, Machine.rests_initial.define fun _ => trivial⟩

theorem Ready.run (ready : session.Ready allowed) (host : Host) (allows : Source.Allows allowed text) :
    (session.run host text).2.Ready allowed := by
  cases resolved : Source.resolved? text with
  | none =>
    obtain ⟨_, after, rejects, _, same⟩ :=
      session.run_of_not_resolved? host ready.resolving resolved
    rw [rejects]
    exact ⟨same.settings ▸ ready.resolving, same.rests ready.rests⟩
  | some statements =>
    obtain ⟨notes, distances, executes⟩ :=
      session.run_of_resolved? host ready.resolving resolved
    rw [executes]
    exact ⟨(congrArg Settings.resolve (execute_settings _ _ _)).trans ready.resolving,
      execute_rests ready.rests (Source.proper_of_resolved? resolved) (allows _ resolved)⟩

theorem Ready.after (ready : session.Ready allowed) :
    ∀ runs : List (Host × List Char), (∀ run ∈ runs, Source.Allows allowed run.2) →
      (session.after runs).Ready allowed := by
  intro runs
  induction runs generalizing session with
  | nil => exact fun _ => ready
  | cons first others ih =>
    intro allows
    exact ih (ready.run first.1 (allows first List.mem_cons_self)) fun run member =>
      allows run (.tail _ member)

/-- Where the execution of statements begins. -/
def entry (session : Session) (host : Host) (statements : List Stmt) : Point :=
  ⟨.executeAll statements, host.fuel, session.machine⟩

/-- Whatever a run of a ready session comes to stands in the regions of its text. -/
theorem Ready.visits_stand (ready : session.Ready allowed) (allows : Source.Allows allowed text)
    (same : Source.resolved? text = some resolved) {point : Point}
    (reaches : Point.Reaches (session.settings.rules host) (session.entry host resolved) point) :
    point.Stands allowed
      (Point.InInitializer (session.settings.rules host) (session.entry host resolved) · point) := by
  obtain ⟨wholes, stands⟩ := ready.rests.stands
  exact .reach reaches (.executeAll stands (Source.proper_of_resolved? same) (allows _ same)
    fun name _ => Region.open_nil name)

theorem blamed_of_escaped {fault : Fault}
    (escaped : (session.execute host statements).1 = .escaped fault) :
    Point.Blamed (session.settings.rules host) (session.entry host statements) (.fault fault) := by
  have blamed : (interpret (session.settings.rules host) host.fuel statements
      session.machine).FailsWith
        (Point.Blamed (session.settings.rules host) (session.entry host statements)) := by
    refine (OutcomeIn.FailsWith.bind
      (Point.blamesWith _ host.fuel (.executeAll statements) session.machine) ?_).mapState _
    exact fun _ _ _ => OutcomeIn.failsWith_done
  cases ran : interpret (session.settings.rules host) host.fuel statements session.machine with
  | done value after => rw [execute_of_done ran] at escaped; cases escaped
  | failed failure after =>
    cases failure with
    | runtime error => rw [execute_of_runtime ran] at escaped; cases escaped
    | fault other =>
      rw [execute_of_fault ran] at escaped
      cases escaped
      exact blamed _ _ ran
  | @exhausted after => rw [execute_of_cut ran] at escaped; cases escaped

theorem Ready.blamed_of_run {fault : Fault} (ready : session.Ready allowed)
    (escaped : (session.run host text).1 = .escaped fault) :
    ∃ resolved, Source.resolved? text = some resolved ∧
      Point.Blamed (session.settings.rules host) (session.entry host resolved) (.fault fault) := by
  cases same : Source.resolved? text with
  | none =>
    obtain ⟨_, after, rejects, _⟩ := session.run_of_not_resolved? host ready.resolving same
    rw [rejects] at escaped
    cases escaped
  | some resolved =>
    obtain ⟨notes, distances, executes⟩ :=
      session.run_of_resolved? host ready.resolving same
    rw [executes] at escaped
    exact ⟨resolved, rfl, @blamed_of_escaped
      { session.prepare with notes := notes, distances := distances } host resolved fault escaped⟩

/-- The only fault that escapes is that of an assignment to a local variable inside
its own initializer, whose frame does not bind the variable yet. Where no text has
such an assignment, each walk finds its name at its distance and each failure is
the program's own. -/
theorem faults_of_run {settings : Settings} (resolving : settings.resolve = true)
    (earlier : List (Host × List Char)) (host : Host) (text : List Char) :
    let session := (start settings).after earlier
    let rules := session.settings.rules host
    (∀ fault, (session.run host text).1 = .escaped fault →
      ∃ name resolved point, Source.resolved? text = some resolved ∧
        Point.Reaches rules (session.entry host resolved) point ∧
        Point.Raises rules point (.fault fault) ∧ fault = .store (.missing name) ∧
        Point.AssignsUnbound rules name point ∧
        Point.InInitializer rules (session.entry host resolved) name point) ∧
    ((∀ run ∈ (host, text) :: earlier, Source.OwnFree run.2) →
      (∀ fault, (session.run host text).1 ≠ .escaped fault) ∧
      ∀ resolved point, Source.resolved? text = some resolved →
        Point.Reaches rules (session.entry host resolved) point →
        (∀ machine name distance, Point.Walks rules point machine name distance →
          machine.Finds name distance) ∧
        ∀ failure, Point.Raises rules point failure → failure.IsRuntime) := by
  intro session rules
  constructor
  · intro fault escaped
    -- Of any texts it is known that each use has the distance of its name, or assigns the
    -- pending variable.
    have ready : session.Ready Site.Located :=
      (ready_start resolving).after earlier fun run _ => Source.allows_located run.2
    obtain ⟨resolved, same, point, reaches, raises⟩ := ready.blamed_of_run escaped
    have stands := ready.visits_stand (Source.allows_located text) same reaches
    have known : ∀ site : Site, site.Located → site.Exact ∨
        site.pending = some site.name.lexeme ∧ site.assigned = true ∧ site.distance = some 0 :=
      fun site located => located.symm.imp_left And.right
    rcases stands.raises known raises with runtime | ⟨site, _, _, inside, unbound, fails⟩
    · obtain ⟨error, other⟩ := runtime
      cases other
    · cases fails
      exact ⟨_, resolved, point, same, reaches, raises, rfl, unbound, inside⟩
  · intro free
    -- Without such assignments each use has the distance of its name.
    have ready : session.Ready Site.Exact :=
      (ready_start resolving).after earlier fun run member => (free run (.tail _ member)).allows
    have allows := (free (host, text) List.mem_cons_self).allows
    have runtime : ∀ resolved point failure, Source.resolved? text = some resolved →
        Point.Reaches rules (session.entry host resolved) point →
        Point.Raises rules point failure → failure.IsRuntime := by
      intro resolved point failure same reaches raises
      have stands := ready.visits_stand allows same reaches
      rcases stands.raises (fun _ => .inl) raises with runtime | ⟨site, exact_, notExact, _⟩
      · exact runtime
      · exact absurd exact_ notExact
    refine ⟨?_, fun resolved point same reaches => ⟨?_, ?_⟩⟩
    · intro fault escaped
      obtain ⟨resolved, same, point, reaches, raises⟩ := ready.blamed_of_run escaped
      obtain ⟨error, other⟩ := runtime resolved point _ same reaches raises
      cases other
    · intro machine name distance walks
      exact (ready.visits_stand allows same reaches).walks_find walks
    · exact fun failure => runtime resolved point failure same reaches

/-- A block whose only variable is assigned in its own initializer. -/
def ownAssignment : List Char :=
  ['\x7b', 'v', 'a', 'r', ' ', 'a', '=', 'a', '=', 'n', 'i', 'l', ';', '\x7d']

/-- The fault does escape, and the run has come to the assignment. -/
theorem faults_of_run_ownAssignment :
    ∃ resolved point, Source.resolved? ownAssignment = some resolved ∧
      Point.Reaches ⟨none, .lexical, fun _ => 0⟩
        ((start ⟨true, none, false, false⟩).entry ⟨20, none, fun _ => 0⟩ resolved) point ∧
      Point.AssignsUnbound ⟨none, .lexical, fun _ => 0⟩ "a" point := by
  have escapes : ((start ⟨true, none, false, false⟩).run ⟨20, none, fun _ => 0⟩ ownAssignment).1 =
      .escaped (.store (.missing "a")) := by decide +kernel
  obtain ⟨name, resolved, point, same, reaches, _, fails, unbound, _⟩ :=
    (@faults_of_run ⟨true, none, false, false⟩ rfl [] ⟨20, none, fun _ => 0⟩ ownAssignment).1 _
      escapes
  cases fails
  exact ⟨resolved, point, same, reaches, unbound⟩

end Session

end Lox
