import Lox.Proofs.Dynamic.Agreement
import Lox.Proofs.Session.Safety

/-! Sessions that look names up dynamically.

Where nothing is shadowed and no local variable is assigned in its own initializer, a
session that does not resolve names answers as one that does, and leaves the same
globals in the same order. Only the bodies of its functions have no distances.
-/

set_option autoImplicit false

namespace Lox

def Settings.dynamic (settings : Settings) : Settings := { settings with resolve := false }

theorem interpret_erase {rules : Rules} {fuel : Nat} {resolved : List Stmt} {machine : Machine}
    (lexical : rules.lookup = .lexical) (rests : machine.Rests Site.Sole)
    (proper : Stmt.AllProper resolved) (uses : Stmt.EveryUseIn Site.Sole [] resolved) :
    (interpret rules fuel resolved machine).map id Machine.erase =
      interpret rules.dynamic fuel (Stmt.eraseAll resolved) machine.erase := by
  obtain ⟨wholes, stands⟩ := rests.stands
  apply OutcomeIn.map_mapState
  · apply OutcomeIn.map_bind ((erasesWith lexical fuel).executeAll stands proper uses
      fun name _ => Region.open_nil name)
    intro completion after _
    rfl
  · intro after
    rfl

namespace Source

variable {text : List Char}

theorem allows_sole (unshadowed : Allows Site.Unshadowed text) (free : OwnFree text) :
    Allows Site.Sole text := by
  intro resolved same
  exact Stmt.everyUseIn_of_both (fun _ => Site.Sole.mk) resolved (free.allows resolved same)
    (unshadowed resolved same)

end Source

namespace Session

variable {session : Session} {host : Host} {text : List Char} {resolved : List Stmt}

/-- The same session under dynamic look-up, with notes and a count of distances of its
own. -/
def dynamic (session : Session) (notes : List String) (distances : Nat) : Session :=
  { session with
    settings := session.settings.dynamic
    machine := session.machine.erase
    notes := notes
    distances := distances }

theorem execute_dynamic (resolving : session.settings.resolve = true)
    (rests : session.machine.Rests Site.Sole) (proper : Stmt.AllProper resolved)
    (uses : Stmt.EveryUseIn Site.Sole [] resolved) (notes : List String) (distances : Nat) :
    (session.dynamic notes distances).execute host (Stmt.eraseAll resolved) =
      ((session.execute host resolved).1,
        (session.execute host resolved).2.dynamic notes distances) := by
  have lexical : (session.settings.rules host).lookup = .lexical := by
    simp [Settings.rules, resolving]
  have same : (interpret (session.settings.rules host) host.fuel resolved session.machine).map id
      Machine.erase =
        interpret ((session.dynamic notes distances).settings.rules host) host.fuel
          (Stmt.eraseAll resolved) (session.dynamic notes distances).machine :=
    interpret_erase lexical rests proper uses
  -- Both executions end alike, and each ending is written down in the same way.
  cases ran : interpret (session.settings.rules host) host.fuel resolved session.machine with
  | done value machine =>
    rw [ran] at same
    rw [execute_of_done ran, execute_of_done same.symm, adopt_eq, adopt_eq]
    rfl
  | failed failure machine =>
    rw [ran] at same
    cases failure with
    | runtime error =>
      rw [execute_of_runtime ran, execute_of_runtime same.symm, report_eq, report_eq, adopt_eq,
        adopt_eq]
      rfl
    | fault fault =>
      rw [execute_of_fault ran, execute_of_fault same.symm, adopt_eq, adopt_eq]
      rfl
  | @exhausted machine =>
    rw [ran] at same
    rw [execute_of_cut ran, execute_of_cut same.symm, printLines_eq, printLines_eq]
    rfl

theorem run_dynamic (ready : session.Ready Site.Sole) (host : Host)
    (accepted : (Source.resolved? text).isSome = true) (allows : Source.Allows Site.Sole text)
    (notes : List String) (distances : Nat) :
    ∃ more count, (session.dynamic notes distances).run host text =
      ((session.run host text).1, (session.run host text).2.dynamic more count) := by
  obtain ⟨resolved, same⟩ := Option.isSome_iff_exists.mp accepted
  obtain ⟨statements, parsed, _⟩ := Source.locates_of_resolved? same
  obtain ⟨read, count, executes⟩ := session.run_of_resolved? host ready.resolving same
  obtain ⟨more, searches⟩ := (session.dynamic notes distances).run_of_parsed? host parsed
  -- Dynamic look-up executes the parsed statements, which are the resolved ones erased.
  have erased : Stmt.eraseAll resolved = statements := by
    rw [Source.eraseAll_of_resolved? same, Source.parsed?_eq parsed]
  refine ⟨more, distances, ?_⟩
  rw [executes, searches, ← erased]
  have agrees := @execute_dynamic { session.prepare with notes := read, distances := count } host
    resolved ready.resolving ready.rests (Source.proper_of_resolved? same) (allows resolved same)
    more distances
  exact agrees

theorem start_dynamic (settings : Settings) :
    start settings.dynamic = (start settings).dynamic [] 0 := by
  have same : (start settings).machine.erase = (start settings).machine := by
    unfold start
    rw [Machine.erase_define, Machine.erase_initial]
    rfl
  unfold dynamic
  rw [same]
  rfl

/-- Where nothing is shadowed, a session that does not resolve names answers as one that
does, and leaves the same globals in the same order, but for distances in the bodies of
functions. -/
theorem run_eq_dynamic (settings : Settings) (host : Host) (text : List Char)
    (accepted : (Source.resolved? text).isSome = true)
    (unshadowed : Source.Allows Site.Unshadowed text) (free : Source.OwnFree text) :
    let resolving := (start { settings with resolve := true }).run host text
    let searching := (start { settings with resolve := false }).run host text
    searching.1 = resolving.1 ∧ searching.2.stream = resolving.2.stream ∧
      searching.2.globals = resolving.2.globals.map (Prod.map id ValueIn.erase) := by
  intro resolving searching
  have ready : (start { settings with resolve := true }).Ready Site.Sole := ready_start rfl
  obtain ⟨notes, distances, agrees⟩ :=
    run_dynamic ready host accepted (Source.allows_sole unshadowed free) [] 0
  rw [← start_dynamic] at agrees
  have same : searching = (resolving.1, resolving.2.dynamic notes distances) := agrees
  rw [same]
  exact ⟨rfl, rfl, resolving.2.machine.bindings_erase Machine.globals⟩

/-- A function that prints a variable of the block around it, called after the block has
declared another one. -/
def laterNeighbour : List Char :=
  ['\x7b', 'v', 'a', 'r', ' ', 'a', ';', 'f', 'u', 'n', ' ', 'f', '(', ')', '\x7b', 'p', 'r', 'i', 'n',
    't', ' ', 'a', ';', '\x7d', 'v', 'a', 'r', ' ', 'b', '=', 't', 'r', 'u', 'e', ';', 'a', '=', 'b', ';',
    'f', '(', ')', ';', '\x7d']

/-- The search from the function comes to the variable of the block. -/
theorem run_eq_dynamic_laterNeighbour :
    ((Source.resolved? laterNeighbour).isSome = true ∧
      Source.Allows Site.Unshadowed laterNeighbour ∧ Source.OwnFree laterNeighbour) ∧
    ((start ⟨false, none, true, false⟩).run ⟨30, none, fun _ => 0⟩ laterNeighbour).1 =
      .finished ⟨.success, ["true"], [], [⟨.output, "true"⟩]⟩ := by
  have conditions : (Source.resolved? laterNeighbour).isSome = true ∧
      Source.Allows Site.Unshadowed laterNeighbour ∧ Source.OwnFree laterNeighbour := by
    decide +kernel
  refine ⟨conditions, ?_⟩
  have agrees := (run_eq_dynamic ⟨true, none, true, false⟩ ⟨30, none, fun _ => 0⟩ laterNeighbour
    conditions.1 conditions.2.1 conditions.2.2).1
  apply Eq.trans agrees
  decide +kernel

end Session

end Lox
