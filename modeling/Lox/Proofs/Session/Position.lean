import Lox.Proofs.Run.Position
import Lox.Proofs.Session.Traces

/-! Where runs leave the machine of a session.

Every task goes back to the frame and the depth at which it began, so whatever the runs of
a session end in, the next one begins at the globals and outside all calls.
-/

set_option autoImplicit false

namespace Lox.Session

open Point

variable {session : Session}

theorem atRest_start (settings : Settings) : (start settings).machine.AtRest := ⟨rfl, rfl, rfl⟩

theorem atRest_visit (rest : session.machine.AtRest) (step : Step) :
    (session.visit step).machine.AtRest := by
  cases step with
  | read text =>
    rw [visit_read]
    exact rest
  | run host text =>
    rw [visit_run]
    dsimp only
    unfold account
    split
    · exact rest.account _ _ _
    · exact rest

theorem atRest_visits (steps : List Step) : ∀ {session : Session}, session.machine.AtRest →
    ∀ visit ∈ session.visits steps, visit.machine.AtRest := by
  induction steps with
  | nil => exact fun _ _ member => absurd member List.not_mem_nil
  | cons step others ih =>
    intro session rest visit member
    have next := atRest_visit rest step
    rcases List.mem_cons.mp member with rfl | later
    · exact next
    · exact ih next visit later

/-- However a task ends, it stops in the frame and at the depth at which it began. Every
state that the run passes through is as deep as the calls under way make it, and no call
goes beyond the limit. So the machine of a session is at the globals and outside all calls
after each step, whatever that step and the ones before it ended in. -/
theorem position_restored :
    (∀ (rules : Rules) (fuel : Nat) (task : Task) (machine : Machine),
      machine.SamePlace (task.run rules fuel machine).state ∧
      (∀ middle, Leads rules ⟨task, fuel, machine⟩ machine middle →
        ∃ outer, Passes rules ⟨task, fuel, machine⟩ outer middle) ∧
      ∀ outer middle, Passes rules ⟨task, fuel, machine⟩ outer middle →
        middle.depth = machine.depth + calls outer ∧
        ∀ limit ∈ rules.limit, (middle.depth : Int) ≤ max (machine.depth : Int) limit) ∧
    ∀ (settings : Settings) (steps : List Step),
      ∀ visit ∈ (start settings).visits steps, visit.machine.AtRest := by
  refine ⟨fun rules fuel task machine => ⟨Task.restoresWith rules fuel task machine, ?_, ?_⟩,
    fun settings steps => atRest_visits steps (atRest_start settings)⟩
  · exact fun middle leads => leads.passes
  · exact fun outer middle passes => ⟨passes.deep.counts, passes.deep.bounded⟩

def selfCall : List Stmt :=
  let name : Token := ⟨.identifier, "f", none, 1⟩
  let again : Stmt := .expression (.call (.reference name none) ⟨.rightParen, ")", none, 1⟩ [])
  [.funDecl name [] [again], again]

/-- Inside the second call two are under way, the limit is reached, and the run stops outside
them all. -/
theorem position_restored_selfCall :
    let rules : Rules := ⟨some 2, .lexical, fun _ => 0⟩
    let entry : Point := ⟨.executeAll selfCall, 20, Machine.initial⟩
    ∃ outer inner, UnderWay rules entry outer inner ∧ calls outer = 2 ∧
      inner.machine.depth = 2 ∧ (entry.stop rules).depth = 0 := by
  intro rules entry
  have called : ∃ outer inner, UnderWay rules entry outer inner ∧ calls outer = 2 :=
    ⟨_, _, (((UnderWay.entry.starts (.otherStmts rfl)).starts .firstStmt).starts .expression
      |>.starts (.call rfl rfl) |>.starts (.body rfl) |>.starts .firstStmt |>.starts .expression
      |>.starts (.call rfl rfl) |>.starts (.body rfl)), rfl⟩
  obtain ⟨outer, inner, underWay, two⟩ := called
  obtain ⟨restored, _, deep⟩ := position_restored.1 rules 20 (.executeAll selfCall) Machine.initial
  obtain ⟨counts, _⟩ := deep outer inner.machine (.begins underWay)
  rw [two] at counts
  exact ⟨outer, inner, underWay, two, counts, restored.depth⟩

end Lox.Session
