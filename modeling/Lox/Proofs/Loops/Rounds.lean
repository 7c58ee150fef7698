import Lox.Proofs.Run.Fuel

/-! Loops as repeated rounds.

A loop is given by a test and a turn. It makes a turn after each test that holds, until a
test fails or a turn returns. More fuel lets it go on and changes nothing else, if that is
so of its test and its turn; and two loops do the same if one does with some more fuel
what the other does, test by test and turn by turn.
-/

set_option autoImplicit false

namespace Lox

def OutcomeIn.proceed (outcome : Outcome Completion) (next : Machine → Outcome Completion) :
    Outcome Completion :=
  outcome.bind fun completion machine =>
    match completion with
    | .normal => next machine
    | .returned value => .done (.returned value) machine

def repeatWhile (test : Nat → Machine → Outcome Bool) (turn : Nat → Machine → Outcome Completion) :
    Nat → Machine → Outcome Completion
  | 0, machine => .cut machine
  | fuel + 1, machine =>
    (test fuel machine).bind fun holds machine =>
      if holds then (turn fuel machine).proceed (repeatWhile test turn fuel)
      else .done .normal machine

def Expr.test (rules : Rules) (condition : Expr) (fuel : Nat) (machine : Machine) : Outcome Bool :=
  (evaluate rules fuel condition machine).bind fun value machine => .done value.truthy machine

section
variable {rules : Rules} {fuel : Nat} {machine : Machine}

theorem OutcomeIn.proceed_done (outcome : Outcome Completion) :
    outcome.proceed (.done .normal ·) = outcome := by
  cases outcome with
  | done completion after => cases completion <;> rfl
  | _ => rfl

/-- A loop in the tree tests its condition and executes its body. -/
theorem executeLoop_eq_repeatWhile (condition : Expr) (body : Stmt) :
    executeLoop rules fuel condition body machine =
      repeatWhile (condition.test rules) (fun fuel => execute rules fuel body) fuel machine := by
  induction fuel generalizing machine with
  | zero => rfl
  | succ fuel ih =>
    rw [executeLoop, repeatWhile, Expr.test]
    cases evaluate rules fuel condition machine with
    | done value after =>
      change (if value.truthy = true then _ else _) = if value.truthy = true then _ else _
      split
      · unfold OutcomeIn.proceed
        congr 1
        funext completion later
        cases completion with
        | normal => exact ih
        | returned value => rfl
      · rfl
    | _ => rfl

theorem executeAll_pair (first second : Stmt) :
    executeAll rules (fuel + 3) [first, second] machine =
      (execute rules (fuel + 2) first machine).proceed (execute rules (fuel + 1) second) := by
  rw [executeAll]
  unfold OutcomeIn.proceed
  congr 1
  funext completion after
  cases completion with
  | normal =>
    dsimp only
    rw [executeAll]
    exact OutcomeIn.proceed_done _
  | returned value => rfl

end

open OutcomeIn (Lasts)

theorem OutcomeIn.Lasts.proceed {before : Machine} {outcome other : Outcome Completion}
    {next further : Machine → Outcome Completion} (lasts : Lasts before outcome other)
    (goesOn : ∀ after, Lasts after (next after) (further after)) :
    Lasts before (outcome.proceed next) (other.proceed further) := by
  apply lasts.bind
  intro completion after
  cases completion with
  | normal => exact goesOn after
  | returned value => exact .same (.refl after)

def Steady {α : Type} (steps : Nat → Machine → Outcome α) : Prop :=
  ∀ fuel more, fuel ≤ more → ∀ machine, Lasts machine (steps fuel machine) (steps more machine)

section
variable {α : Type} {steps : Nat → Machine → Outcome α}

theorem Steady.cut (steady : Steady steps) (fuel : Nat) (machine : Machine) :
    Lasts machine (.cut machine) (steps fuel machine) :=
  have prints := (steady 0 fuel (Nat.zero_le fuel) machine).1
  ⟨prints, prints⟩

theorem steady_execute (rules : Rules) (stmt : Stmt) : Steady fun fuel => execute rules fuel stmt :=
  fun _ _ enough => lastsWith rules enough (.execute stmt)

theorem steady_test (rules : Rules) (condition : Expr) : Steady (condition.test rules) :=
  fun _ _ enough machine => (lastsWith rules enough (.evaluate condition) machine).bind
    fun _ after => .same (.refl after)

end

section
variable {test other : Nat → Machine → Outcome Bool} {turn second : Nat → Machine → Outcome Completion}

theorem repeatWhile_succ {fuel more : Nat}
    (tests : ∀ machine, Lasts machine (test fuel machine) (other more machine))
    (turns : ∀ machine, Lasts machine (turn fuel machine) (second more machine))
    (rounds : ∀ machine, Lasts machine (repeatWhile test turn fuel machine)
      (repeatWhile other second more machine)) (machine : Machine) :
    Lasts machine (repeatWhile test turn (fuel + 1) machine)
      (repeatWhile other second (more + 1) machine) := by
  apply (tests machine).bind
  intro holds after
  cases holds with
  | true => exact (turns after).proceed rounds
  | false => exact .same (.refl after)

theorem steady_repeatWhile (tests : Steady test) (turns : Steady turn) :
    Steady (repeatWhile test turn) := by
  -- Rounds only print more, and so any number of them goes on from none.
  have same : ∀ fuel machine, Lasts machine (repeatWhile test turn fuel machine)
      (repeatWhile test turn fuel machine) := by
    intro fuel
    induction fuel with
    | zero => exact fun machine => .same (.refl machine)
    | succ fuel ih => exact repeatWhile_succ (tests _ _ (Nat.le_refl fuel)) (turns _ _ (Nat.le_refl fuel)) ih
  intro fuel
  induction fuel with
  | zero => exact fun more _ machine => ⟨(same more machine).1, (same more machine).1⟩
  | succ fuel ih =>
    intro more enough
    obtain ⟨more, rfl⟩ := Nat.exists_eq_add_of_lt enough
    have less : fuel ≤ fuel + more := Nat.le_add_right fuel more
    exact repeatWhile_succ (tests _ _ less) (turns _ _ less) (ih _ less)

/-- A loop does no more than another one with some more fuel, if its tests and its turns do
no more. -/
theorem repeatWhile_lasts {gap : Nat} (tests : Steady other) (turns : Steady second)
    (less : ∀ fuel machine, Lasts machine (test fuel machine) (other (fuel + gap) machine))
    (lessTurn : ∀ fuel machine, Lasts machine (turn fuel machine) (second (fuel + gap) machine))
    (fuel : Nat) : ∀ machine, Lasts machine (repeatWhile test turn fuel machine)
      (repeatWhile other second (fuel + gap) machine) := by
  induction fuel with
  | zero => exact (steady_repeatWhile tests turns).cut _
  | succ fuel ih =>
    rw [Nat.add_right_comm]
    exact repeatWhile_succ (less fuel) (lessTurn fuel) ih

/-! ### Between rounds -/

/-- The machines between the rounds of a loop. A test held and a turn did not return before
each of them but the first. -/
inductive Between (test : Nat → Machine → Outcome Bool) (turn : Nat → Machine → Outcome Completion)
    (start : Machine) : Machine → Prop where
  | start : Between test turn start start
  | round {fuel : Nat} {before tested after : Machine} :
      Between test turn start before → test fuel before = .done true tested →
      turn fuel tested = .done .normal after → Between test turn start after

end

end Lox
