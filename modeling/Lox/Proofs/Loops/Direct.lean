import Lox.Proofs.Loops.Rounds
import Lox.Scope
import Lox.Syntax.StmtParser

/-! Running a `for` loop without its tree.

The initializer is executed once, in a frame of its own that the whole loop shares. Each turn
executes the body and then evaluates the increment, in the same frame as the condition. The
tree that the parser builds has one frame more for each turn, if there is an increment, and
otherwise does the same with some more fuel.
-/

set_option autoImplicit false

namespace Lox

/-- The clauses of a `for` loop, and its body. -/
structure ForLoop where
  initializer : Option Stmt
  condition : Option Expr
  increment : Option Expr
  body : Stmt

namespace ForLoop

def tree (loop : ForLoop) : Stmt :=
  Syntax.forLoop loop.initializer loop.condition loop.increment loop.body

def resolveInitializer (scopes : List Scope) (inFunction : Bool) :
    Option Stmt → Resolution (Option Stmt × List Scope)
  | none => .pure (none, scopes)
  | some initializer => do
    let (initializer, inner) ← initializer.resolve ([] :: scopes) inFunction
    return (some initializer, inner)

def resolveStep (scopes : List Scope) (inFunction : Bool) (loop : ForLoop) :
    Resolution (Stmt × Option Expr) := do
  let (body, _) ← loop.body.resolve scopes inFunction
  let increment ← Expr.resolveOption scopes loop.increment
  return (body, increment)

/-- The condition, the body and the increment stand in the scopes behind the initializer. -/
def resolve (scopes : List Scope) (inFunction : Bool) (loop : ForLoop) : Resolution ForLoop := do
  let (initializer, inner) ← resolveInitializer scopes inFunction loop.initializer
  let condition ← Expr.resolveOption inner loop.condition
  let (body, increment) ← loop.resolveStep inner inFunction
  return ⟨initializer, condition, increment, body⟩

section
variable (rules : Rules) (loop : ForLoop) (fuel : Nat) (machine : Machine)

def test : Outcome Bool :=
  match loop.condition with
  | none => .done true machine
  | some condition => condition.test rules fuel machine

def advance : Outcome Completion :=
  match loop.increment with
  | none => .done .normal machine
  | some increment =>
    (evaluate rules fuel increment machine).bind fun _ machine => .done .normal machine

def turn : Outcome Completion :=
  (execute rules fuel loop.body machine).proceed (loop.advance rules fuel)

/-- The rounds of a loop, in a frame behind the initializer if there is one. -/
def runBy (turn : Nat → Machine → Outcome Completion) : Outcome Completion :=
  match loop.initializer with
  | none => repeatWhile (loop.test rules) turn fuel machine
  | some initializer =>
    ((execute rules fuel initializer (machine.enter machine.frame)).proceed
      (repeatWhile (loop.test rules) turn fuel)).mapState (·.returnTo machine.frame machine.depth)

def run : Outcome Completion := loop.runBy rules fuel machine (loop.turn rules)

/-- A turn as it is in the tree. With an increment it has a frame of its own. -/
def framedTurn : Outcome Completion :=
  match loop.increment with
  | none => loop.turn rules fuel machine
  | some _ =>
    (loop.turn rules fuel (machine.enter machine.frame)).mapState
      (·.returnTo machine.frame machine.depth)

end

def step (loop : ForLoop) : Stmt :=
  match loop.increment with
  | none => loop.body
  | some increment => .block [loop.body, .expression increment]

def rest (loop : ForLoop) : Stmt :=
  .loop (loop.condition.getD (.literal (.bool true))) loop.step

theorem tree_eq (loop : ForLoop) :
    loop.tree = match loop.initializer with
      | none => loop.rest
      | some initializer => .block [initializer, loop.rest] := rfl

open OutcomeIn (Lasts)

variable (rules : Rules) (loop : ForLoop)

/-! ### More fuel -/

theorem steady_test : Steady (loop.test rules) := by
  intro fuel more enough machine
  unfold test
  split
  · exact .same (.refl machine)
  next condition _ => exact Lox.steady_test rules condition _ _ enough machine

theorem steady_advance : Steady (loop.advance rules) := by
  intro fuel more enough machine
  unfold advance
  split
  · exact .same (.refl machine)
  next increment _ =>
    apply (lastsWith rules enough (.evaluate increment) machine).bind
    exact fun value after => .same (.refl after)

theorem steady_turn : Steady (loop.turn rules) := fun fuel more enough machine =>
  (lastsWith rules enough (.execute loop.body) machine).proceed
    (loop.steady_advance rules fuel more enough)

theorem steady_framedTurn : Steady (loop.framedTurn rules) := by
  intro fuel more enough machine
  unfold framedTurn
  split
  · exact loop.steady_turn rules fuel more enough machine
  · have turn := loop.steady_turn rules fuel more enough (machine.enter machine.frame)
    exact (turn.after (.refl machine)).returnTo

/-! ### The tree with its frames -/

theorem execute_step {loop : ForLoop} {increment : Expr} (same : loop.increment = some increment)
    (fuel : Nat) (machine : Machine) :
    execute rules (fuel + 4) loop.step machine =
      ((execute rules (fuel + 2) loop.body (machine.enter machine.frame)).proceed
        (loop.advance rules fuel)).mapState (·.returnTo machine.frame machine.depth) := by
  unfold step
  rw [same]
  dsimp only
  rw [execute_block, executeAll_pair]
  congr 2
  funext after
  rw [execute]
  unfold advance
  rw [same]

theorem step_lasts (fuel : Nat) (machine : Machine) :
    Lasts machine (execute rules fuel loop.step machine)
      (loop.framedTurn rules (fuel + 4) machine) := by
  unfold framedTurn
  split
  next absent =>
    have same : loop.turn rules (fuel + 4) machine = execute rules (fuel + 4) loop.step machine := by
      unfold turn step advance
      rw [absent]
      exact OutcomeIn.proceed_done _
    rw [same]
    exact lastsWith rules (Nat.le_add_right fuel 4) (.execute loop.step) machine
  next increment same =>
    apply (lastsWith rules (Nat.le_add_right fuel 4) (.execute loop.step) machine).trans
    change Lasts machine (execute rules (fuel + 4) loop.step machine) _
    rw [execute_step rules same]
    have body := lastsWith rules (show fuel + 2 ≤ fuel + 4 by omega) (.execute loop.body)
      (machine.enter machine.frame)
    exact ((body.proceed (loop.steady_advance rules _ _ (Nat.le_add_right fuel 4))).after
      (.refl machine)).returnTo

theorem lasts_step (fuel : Nat) (machine : Machine) :
    Lasts machine (loop.framedTurn rules fuel machine)
      (execute rules (fuel + 4) loop.step machine) := by
  unfold framedTurn
  split
  next absent =>
    have same : loop.turn rules fuel machine = execute rules fuel loop.step machine := by
      unfold turn step advance
      rw [absent]
      exact OutcomeIn.proceed_done _
    rw [same]
    exact lastsWith rules (Nat.le_add_right fuel 4) (.execute loop.step) machine
  next increment same =>
    rw [execute_step rules same]
    have body := lastsWith rules (Nat.le_add_right fuel 2) (.execute loop.body)
      (machine.enter machine.frame)
    exact ((body.proceed (loop.steady_advance rules _ _ (Nat.le_refl fuel))).after
      (.refl machine)).returnTo

theorem condition_lasts (fuel : Nat) (machine : Machine) :
    Lasts machine ((loop.condition.getD (.literal (.bool true))).test rules fuel machine)
      (loop.test rules (fuel + 4) machine) := by
  unfold test
  split
  next absent =>
    rw [absent]
    cases fuel with
    | zero => exact ⟨.refl machine, .refl machine⟩
    | succ fuel => exact .same (.refl machine)
  next condition same =>
    rw [same]
    exact Lox.steady_test rules condition _ _ (Nat.le_add_right fuel 4) machine

theorem lasts_condition (fuel : Nat) (machine : Machine) :
    Lasts machine (loop.test rules fuel machine)
      ((loop.condition.getD (.literal (.bool true))).test rules (fuel + 4) machine) := by
  unfold test
  split
  next absent =>
    rw [absent]
    exact .same (.refl machine)
  next condition same =>
    rw [same]
    exact Lox.steady_test rules condition _ _ (Nat.le_add_right fuel 4) machine

theorem execute_rest (fuel : Nat) (machine : Machine) :
    execute rules (fuel + 1) loop.rest machine =
      repeatWhile ((loop.condition.getD (.literal (.bool true))).test rules)
        (fun fuel => execute rules fuel loop.step) fuel machine :=
  executeLoop_eq_repeatWhile _ _

theorem rest_lasts (fuel : Nat) (machine : Machine) :
    Lasts machine (execute rules (fuel + 1) loop.rest machine)
      (repeatWhile (loop.test rules) (loop.framedTurn rules) (fuel + 4) machine) := by
  rw [execute_rest]
  exact repeatWhile_lasts (loop.steady_test rules) (loop.steady_framedTurn rules)
    (loop.condition_lasts rules) (loop.step_lasts rules) fuel machine

theorem lasts_rest (fuel : Nat) (machine : Machine) :
    Lasts machine (repeatWhile (loop.test rules) (loop.framedTurn rules) fuel machine)
      (execute rules (fuel + 5) loop.rest machine) := by
  rw [execute_rest]
  exact repeatWhile_lasts (Lox.steady_test rules _) (steady_execute rules loop.step)
    (loop.lasts_condition rules) (loop.lasts_step rules) fuel machine

/-- The tree does no more than the loop with the frames of the tree and some more fuel. -/
theorem tree_lasts (fuel : Nat) (machine : Machine) :
    Lasts machine (execute rules fuel loop.tree machine)
      (loop.runBy rules (fuel + 4) machine (loop.framedTurn rules)) := by
  have later := lastsWith rules (Nat.le_add_right fuel 4) (.execute loop.tree) machine
  rw [tree_eq] at later ⊢
  unfold runBy
  split
  next absent =>
    rw [absent] at later
    exact (lastsWith rules (Nat.le_add_right fuel 1) (.execute loop.rest) machine).trans
      (loop.rest_lasts rules fuel machine)
  next initializer same =>
    rw [same] at later
    apply later.trans
    change Lasts machine (execute rules (fuel + 4) (.block [initializer, loop.rest]) machine) _
    rw [execute_block, executeAll_pair]
    have first := lastsWith rules (show fuel + 2 ≤ fuel + 4 by omega) (.execute initializer)
      (machine.enter machine.frame)
    exact ((first.proceed (loop.rest_lasts rules fuel)).after (.refl machine)).returnTo

/-- The loop with the frames of the tree does no more than the tree with some more fuel. -/
theorem lasts_tree (fuel : Nat) (machine : Machine) :
    Lasts machine (loop.runBy rules fuel machine (loop.framedTurn rules))
      (execute rules (fuel + 8) loop.tree machine) := by
  rw [tree_eq]
  unfold runBy
  split
  next absent =>
    exact (loop.lasts_rest rules fuel machine).trans
      (lastsWith rules (show fuel + 5 ≤ fuel + 8 by omega) (.execute loop.rest) machine)
  next initializer same =>
    rw [execute_block, executeAll_pair]
    have first := lastsWith rules (show fuel ≤ fuel + 6 by omega) (.execute initializer)
      (machine.enter machine.frame)
    exact ((first.proceed (loop.lasts_rest rules fuel)).after (.refl machine)).returnTo

end ForLoop

end Lox
