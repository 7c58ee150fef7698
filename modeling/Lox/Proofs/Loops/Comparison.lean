import Lox.Proofs.Loops.Direct
import Lox.Proofs.Thinning.Simulation

/-! A loop with the frames of its tree beside a loop that is run directly.

With the same fuel both end in the same way. The frame of a turn is the only one without a
twin; nothing is declared in it, and it is left again before the next test.
-/

set_option autoImplicit false

namespace Lox

variable {twins : Twins} {kept : List Bool} {machine other : Machine}

theorem Store.Beside.of_true {store otherStore : Store Value} {id twin : Nat}
    (beside : store.Beside twins otherStore [true] id twin) :
    store.Beside twins otherStore [] id twin := by
  cases beside with
  | root _ found isRoot foundOther isRootOther => exact .root rfl found isRoot foundOther isRootOther
  | inner _ has found isParent above foundOther isOuter aboveOther outer =>
    exact .inner rfl has found isParent above foundOther isOuter aboveOther outer

namespace OutcomeIn.Thinned

theorem proceed {outcome second : Outcome Completion} {next further : Machine → Outcome Completion}
    (thinned : Thinned twins kept machine other CompletionIn.values outcome second)
    (goesOn : ∀ {more after after'}, after.ThinnedAt more kept after' →
      Thinned more kept after after' CompletionIn.values (next after) (further after')) :
    Thinned twins kept machine other CompletionIn.values (outcome.proceed next)
      (second.proceed further) := by
  apply thinned.bind
  intro completion after mirrored after' more step
  rcases CompletionIn.cases_of_values step.alike with ⟨rfl, rfl⟩ | ⟨value, second, rfl, rfl, _⟩
  · exact goesOn step.both
  · exact .ends step.both step.alike

theorem leave_skipped {α : Type} {given : α → List Value} {outcome second : Outcome α}
    (both : machine.ThinnedAt twins kept other)
    (thinned : Thinned (twins ++ [none]) (false :: kept) (machine.enter machine.frame) other given
      outcome second) :
    Thinned twins kept machine other given
      (outcome.mapState (·.returnTo machine.frame machine.depth)) second := by
  have layout : twins <+: twins ++ [none] := List.prefix_append _ _
  cases thinned with
  | @done _ after _ after' holds =>
    obtain ⟨more, step⟩ := holds
    have all := layout.trans step.layout
    have thinned := step.both.thinned
    have entered : machine.store.Grows (fun _ => True) (machine.enter machine.frame).store := .add _ _
    have returns : machine.Returns (fun _ => True) (after.returnTo machine.frame machine.depth) :=
      ⟨rfl, rfl, entered.trans step.returns.grows fun _ _ => id⟩
    exact .done ⟨more, all, both.grown all returns step.otherReturns
      ⟨thinned.store, thinned.printed, thinned.closures, thinned.readings⟩, returns,
      step.otherReturns, step.alike⟩
  | failed fails =>
    obtain ⟨same, more, further, thinned⟩ := fails
    exact .failed ⟨same, more, layout.trans further,
      ⟨thinned.store, thinned.printed, thinned.closures, thinned.readings⟩⟩
  | exhausted same => exact .exhausted same

abbrev OfTest (twins : Twins) (machine other : Machine) : Outcome Bool → Outcome Bool → Prop :=
  Thinned twins [] machine other fun holds => [.bool holds]

theorem repeatWhile {test second : Nat → Machine → Outcome Bool}
    {turn further : Nat → Machine → Outcome Completion}
    (tests : ∀ fuel {twins machine other}, machine.ThinnedAt twins [] other →
      OfTest twins machine other (test fuel machine) (second fuel other))
    (turns : ∀ fuel {twins machine other}, machine.ThinnedAt twins [] other →
      Thinned twins [] machine other CompletionIn.values (turn fuel machine) (further fuel other))
    (fuel : Nat) : ∀ {twins machine other}, machine.ThinnedAt twins [] other →
      Thinned twins [] machine other CompletionIn.values (Lox.repeatWhile test turn fuel machine)
        (Lox.repeatWhile second further fuel other) := by
  induction fuel with
  | zero => exact .stops
  | succ fuel ih =>
    intro twins machine other both
    apply (tests fuel both).bind
    intro holds after mirrored after' more step
    cases step.alike with
    | cons alike _ =>
      cases alike with
      | literal =>
        cases holds with
        | true => exact (turns fuel step.both).proceed ih
        | false => exact .ends step.both .nil

end OutcomeIn.Thinned

open OutcomeIn (Thinned)

theorem Expr.test_thinned {rules : Rules} (lexical : rules.lookup = .lexical) (condition : Expr)
    (fuel : Nat) (both : machine.ThinnedAt twins [] other) :
    Thinned.OfTest twins machine other (condition.test rules fuel machine)
      (condition.test rules fuel other) := by
  apply ((thinsWith lexical fuel).evaluate (condition.thinned_refl (by simp)) both).bind
  intro value after mirrored after' more step
  cases step.alike with
  | cons alike _ =>
    refine .ends step.both (.cons ?_ .nil)
    rw [ValueIn.truthy_of_face alike.face_eq]
    exact .literal _

namespace ForLoop

def turnScopes (loop : ForLoop) : List Bool :=
  match loop.increment with
  | none => []
  | some _ => [false]

/-- A resolved loop, once with the distances of its tree and once with those of a direct one. -/
structure Thinned (loop slim : ForLoop) : Prop where
  initializer : slim.initializer = loop.initializer
  condition : slim.condition = loop.condition
  increment : Option.Rel (Expr.Thinned loop.turnScopes) loop.increment slim.increment
  body : loop.body.Thinned loop.turnScopes slim.body

namespace Thinned

variable {rules : Rules} {loop slim : ForLoop}

theorem test (thinned : loop.Thinned slim) (lexical : rules.lookup = .lexical) (fuel : Nat)
    {twins : Twins} {machine other : Machine} (both : machine.ThinnedAt twins [] other) :
    OutcomeIn.Thinned.OfTest twins machine other (loop.test rules fuel machine)
      (slim.test rules fuel other) := by
  unfold ForLoop.test
  rw [thinned.condition]
  split
  · exact .ends both (.cons (.literal _) .nil)
  next condition _ => exact condition.test_thinned lexical fuel both

theorem turn (thinned : loop.Thinned slim) (lexical : rules.lookup = .lexical) (fuel : Nat)
    (both : machine.ThinnedAt twins loop.turnScopes other) :
    OutcomeIn.Thinned twins loop.turnScopes machine other CompletionIn.values
      (loop.turn rules fuel machine) (slim.turn rules fuel other) := by
  have steps := thinsWith lexical fuel
  apply (steps.execute thinned.body both).proceed
  intro more after after' both
  have increment := thinned.increment
  unfold advance
  generalize loop.increment = wide at increment ⊢
  generalize slim.increment = narrow at increment ⊢
  cases increment with
  | none => exact .ends both .nil
  | some also =>
    apply (steps.evaluate also both).bind
    intro value last mirrored last' most step
    exact .ends step.both .nil

/-- The frame of a turn is left when the turn ends, whatever it ends in. -/
theorem framedTurn (thinned : loop.Thinned slim) (lexical : rules.lookup = .lexical) (fuel : Nat)
    {twins : Twins} {machine other : Machine} (both : machine.ThinnedAt twins [] other) :
    OutcomeIn.Thinned twins [] machine other CompletionIn.values
      (loop.framedTurn rules fuel machine) (slim.turn rules fuel other) := by
  have turn := fun {twins machine} => @turn twins machine other rules loop slim thinned lexical fuel
  unfold ForLoop.framedTurn
  unfold turnScopes at turn
  split
  next absent =>
    rw [absent] at turn
    exact turn both
  next increment same =>
    rw [same] at turn
    exact .leave_skipped both (turn both.skip)

theorem run (thinned : loop.Thinned slim) (lexical : rules.lookup = .lexical) (fuel : Nat)
    (both : machine.ThinnedAt twins [] other) :
    OutcomeIn.Thinned twins [] machine other CompletionIn.values
      (loop.runBy rules fuel machine (loop.framedTurn rules)) (slim.run rules fuel other) := by
  have rounds : ∀ {twins machine other}, machine.ThinnedAt twins [] other →
      OutcomeIn.Thinned twins [] machine other CompletionIn.values
        (repeatWhile (loop.test rules) (loop.framedTurn rules) fuel machine)
        (repeatWhile (slim.test rules) (slim.turn rules) fuel other) :=
    .repeatWhile (fun fuel => thinned.test lexical fuel) (fun fuel => thinned.framedTurn lexical fuel) fuel
  unfold ForLoop.run runBy
  rw [thinned.initializer]
  split
  · exact rounds both
  next initializer _ =>
    have entered : (machine.enter machine.frame).ThinnedAt (twins ++ [some other.store.next]) []
        (other.enter other.frame) := by
      have enters := Machine.ThinnedAt.enter both.thinned both.beside both.depth
      exact ⟨enters.thinned, enters.depth, enters.beside.of_true⟩
    have first := (thinsWith lexical fuel).execute (initializer.thinned_refl (by simp)) entered
    exact .leave both (List.prefix_append _ _) (.add _ _) (.add _ _) (first.proceed rounds)

end Thinned

end ForLoop

end Lox
