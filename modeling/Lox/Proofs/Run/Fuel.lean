import Lox.Proofs.Limit.Foreruns
import Lox.Proofs.Run.Point

/-! A run with more fuel.

A task that has come to its end does the same with any larger amount of fuel, whether it
ended well or failed. One that ran out of fuel goes on from there, so it has printed a
beginning of what is printed with more.
-/

set_option autoImplicit false

namespace Lox

namespace OutcomeIn

variable {α β : Type} {before : Machine} {outcome other : Outcome α}

/-- From the same machine, `other` does what `outcome` does, or goes on where that one ran
out of fuel. -/
def Lasts (before : Machine) (outcome other : Outcome α) : Prop :=
  before.Prints other.state ∧
    match outcome with
    | .cut after => after.Prints other.state
    | ended => other = ended

namespace Lasts

theorem same (prints : before.Prints outcome.state) : Lasts before outcome outcome := by
  cases outcome with
  | exhausted => exact ⟨prints, .refl _⟩
  | _ => exact ⟨prints, rfl⟩

theorem ofExcept (result : Except Failure α) (machine : Machine) :
    Lasts machine (.ofExcept result machine) (.ofExcept result machine) := by
  cases result <;> exact same (.refl machine)

theorem after {earlier : Machine} (lasts : Lasts before outcome other)
    (prints : earlier.Prints before) : Lasts earlier outcome other :=
  ⟨prints.trans lasts.1, lasts.2⟩

theorem trans {last : Outcome α} (lasts : Lasts before outcome other)
    (more : Lasts before other last) : Lasts before outcome last := by
  refine ⟨more.1, ?_⟩
  cases outcome with
  | exhausted =>
    cases other with
    | exhausted => exact lasts.2.trans more.2
    | _ =>
      obtain ⟨_, rfl⟩ := more
      exact lasts.2
  | _ =>
    obtain ⟨_, rfl⟩ := lasts
    exact more.2

theorem bind {next further : α → Machine → Outcome β} (lasts : Lasts before outcome other)
    (goesOn : ∀ value after, Lasts after (next value after) (further value after)) :
    Lasts before (outcome.bind next) (other.bind further) := by
  -- Whatever follows prints only more.
  have prints : other.state.Prints (other.bind further).state := by
    cases other with
    | done value after => exact (goesOn value after).1
    | _ => exact .refl _
  refine ⟨lasts.1.trans prints, ?_⟩
  cases outcome with
  | done value after =>
    obtain ⟨_, rfl⟩ := lasts
    exact (goesOn value after).2
  | failed failure after =>
    obtain ⟨_, rfl⟩ := lasts
    rfl
  | exhausted => exact lasts.2.trans prints

theorem returnTo {frame depth : Nat} (lasts : Lasts before outcome other) :
    Lasts before (outcome.mapState (·.returnTo frame depth))
      (other.mapState (·.returnTo frame depth)) := by
  have prints : ∀ machine : Machine, machine.Prints other.state →
      machine.Prints (other.mapState (·.returnTo frame depth)).state := by
    intro machine ahead
    cases other <;> exact ahead
  refine ⟨prints before lasts.1, ?_⟩
  cases outcome with
  | exhausted => exact prints _ lasts.2
  | _ =>
    obtain ⟨_, rfl⟩ := lasts
    rfl

end Lasts

end OutcomeIn

open OutcomeIn (Lasts)

def LastsWith (rules : Rules) (fuel more : Nat) : Prop :=
  ∀ (task : Task) (machine : Machine),
    Lasts machine (task.run rules fuel machine) (task.run rules more machine)

namespace LastsWith

variable {rules : Rules} {fuel more : Nat}

section
variable (ih : LastsWith rules fuel more)
include ih

theorem evaluate_succ (expr : Expr) (machine : Machine) :
    Lasts machine (evaluate rules (fuel + 1) expr machine)
      (evaluate rules (more + 1) expr machine) := by
  cases expr with
  | literal value => exact .same (.refl machine)
  | grouping inner => exact ih (.evaluate inner) machine
  | unary operator operand =>
    apply (ih (.evaluate operand) machine).bind
    exact fun value after => .ofExcept _ after
  | binary left operator right =>
    apply (ih (.evaluate left) machine).bind
    intro first middle
    apply (ih (.evaluate right) middle).bind
    exact fun second after => .ofExcept _ after
  | logical left operator right =>
    apply (ih (.evaluate left) machine).bind
    intro first middle
    split
    · exact .same (.refl middle)
    · exact ih (.evaluate right) middle
  | reference name distance => exact .ofExcept _ machine
  | assign name value distance =>
    apply (ih (.evaluate value) machine).bind
    intro result after
    -- Where the name is found is the same with any fuel.
    split <;> exact .same (.refl after)
  | call callee paren arguments =>
    apply (ih (.evaluate callee) machine).bind
    intro function middle
    apply (ih (.evaluateAll arguments) middle).bind
    exact fun values after => ih (.call function values paren.line) after
  | misplaced node => exact .same (.refl machine)

theorem evaluateAll_succ (exprs : List Expr) (machine : Machine) :
    Lasts machine (evaluateAll rules (fuel + 1) exprs machine)
      (evaluateAll rules (more + 1) exprs machine) := by
  cases exprs with
  | nil => exact .same (.refl machine)
  | cons first others =>
    apply (ih (.evaluate first) machine).bind
    intro value middle
    apply (ih (.evaluateAll others) middle).bind
    exact fun values after => .same (.refl after)

theorem call_succ (callee : Value) (arguments : List Value) (line : Int) (machine : Machine) :
    Lasts machine (call rules (fuel + 1) callee arguments line machine)
      (call rules (more + 1) callee arguments line machine) := by
  cases refused : rules.refusal? callee arguments.length machine.depth with
  | some cause =>
    rw [call_of_refused refused, call_of_refused refused]
    exact .same (.refl machine)
  | none =>
    cases callee with
    | literal value => cases refused
    | native function =>
      cases function
      rw [call, call, refused]
      exact .same (.refl machine)
    | closure function =>
      rw [call_closure rules fuel line refused, call_closure rules more line refused]
      have entered : machine.Prints (machine.enterCall function arguments) := by
        unfold Machine.Prints Machine.enterCall
        rw [Machine.prints_defineAll]
        exact List.prefix_refl _
      apply Lasts.returnTo
      apply Lasts.after _ entered
      apply (ih (.executeAll function.body) _).bind
      exact fun completion after => .same (.refl after)

theorem execute_succ (stmt : Stmt) (machine : Machine) :
    Lasts machine (execute rules (fuel + 1) stmt machine)
      (execute rules (more + 1) stmt machine) := by
  cases stmt with
  | expression inner =>
    apply (ih (.evaluate inner) machine).bind
    exact fun value after => .same (.refl after)
  | print inner =>
    apply (ih (.evaluate inner) machine).bind
    exact fun value after => .same (after.prints_print value.display)
  | varDecl name initializer =>
    cases initializer with
    | none => exact .same (.refl machine)
    | some initializer =>
      apply (ih (.evaluate initializer) machine).bind
      exact fun value after => .same (.refl after)
  | block body =>
    rw [execute_block, execute_block]
    apply Lasts.returnTo
    exact (ih (.executeAll body) _).after (.refl machine)
  | conditional condition yes no =>
    apply (ih (.evaluate condition) machine).bind
    intro value middle
    split
    · exact ih (.execute yes) middle
    · cases no with
      | none => exact .same (.refl middle)
      | some no => exact ih (.execute no) middle
  | loop condition body => exact ih (.executeLoop condition body) machine
  | funDecl name params body => exact .same (.refl machine)
  | ret keyword value =>
    cases value with
    | none => exact .same (.refl machine)
    | some value =>
      apply (ih (.evaluate value) machine).bind
      exact fun result after => .same (.refl after)
  | misplaced node => exact .same (.refl machine)

theorem executeAll_succ (stmts : List Stmt) (machine : Machine) :
    Lasts machine (executeAll rules (fuel + 1) stmts machine)
      (executeAll rules (more + 1) stmts machine) := by
  cases stmts with
  | nil => exact .same (.refl machine)
  | cons first others =>
    apply (ih (.execute first) machine).bind
    intro completion middle
    cases completion with
    | normal => exact ih (.executeAll others) middle
    | returned value => exact .same (.refl middle)

theorem executeLoop_succ (condition : Expr) (body : Stmt) (machine : Machine) :
    Lasts machine (executeLoop rules (fuel + 1) condition body machine)
      (executeLoop rules (more + 1) condition body machine) := by
  apply (ih (.evaluate condition) machine).bind
  intro value middle
  split
  · apply (ih (.execute body) middle).bind
    intro completion later
    cases completion with
    | normal => exact ih (.executeLoop condition body) later
    | returned value => exact .same (.refl later)
  · exact .same (.refl middle)

theorem succ : LastsWith rules (fuel + 1) (more + 1)
  | .evaluate expr, machine => evaluate_succ ih expr machine
  | .evaluateAll exprs, machine => evaluateAll_succ ih exprs machine
  | .call callee arguments line, machine => call_succ ih callee arguments line machine
  | .execute stmt, machine => execute_succ ih stmt machine
  | .executeAll stmts, machine => executeAll_succ ih stmts machine
  | .executeLoop condition body, machine => executeLoop_succ ih condition body machine

end

theorem zero (rules : Rules) : ∀ more, LastsWith rules 0 more := by
  intro more task machine
  have cut : task.run rules 0 machine = .cut machine := by cases task <;> rfl
  have self : LastsWith rules more more := by
    induction more with
    | zero => exact fun task machine => .same (by cases task <;> exact .refl machine)
    | succ more ih => exact ih.succ
  have prints := (self task machine).1
  rw [cut]
  exact ⟨prints, prints⟩

end LastsWith

/-- A task with more fuel does the same, or goes on where there was no fuel left. -/
theorem lastsWith (rules : Rules) {fuel more : Nat} (enough : fuel ≤ more) :
    LastsWith rules fuel more := by
  induction fuel generalizing more with
  | zero => exact .zero rules more
  | succ fuel ih =>
    obtain ⟨more, rfl⟩ := Nat.exists_eq_add_of_lt enough
    exact (ih (show fuel ≤ fuel + more by omega)).succ

end Lox
