import Lox.Proofs.Loops.Comparison
import Lox.Proofs.Thinning.Scoping

/-! Distances in the tree of a loop, and in the loop itself.

The scope of a turn declares nothing, and in the scopes around no name waits for its initializer.
So the tree of a loop is accepted only if the loop is, and then the two differ in the distances
that lead past that scope.
-/

set_option autoImplicit false

namespace Lox

open Resolution

variable {scopes inner : List Scope} {inFunction : Bool}

namespace Stmt

theorem resolve_behind : ∀ (stmt : Stmt) {scopes : List Scope} {inFunction : Bool}, stmt.Proper →
    stmt.declared = [] → (stmt.resolve scopes inFunction).Gives fun result => result.2 = scopes
  | .expression _, _, _, _, _ | .print _, _, _, _, _ | .block _, _, _, _, _ =>
    gives_any.bind fun _ _ => gives_pure rfl
  | .ret _ _, _, _, _, _ => gives_any.bind fun _ _ => gives_any.bind fun _ _ => gives_pure rfl
  | .conditional _ yes none, _, _, proper, _ =>
    gives_any.bind fun _ _ => (yes.resolve_behind proper.2.1 proper.2.2).bind fun _ same =>
      gives_pure same
  | .conditional _ yes (some no), _, _, proper, _ =>
    gives_any.bind fun _ _ => (yes.resolve_behind proper.2.1.1 proper.2.1.2).bind fun _ same =>
      (no.resolve_behind proper.2.2.1 proper.2.2.2).bind fun _ also => gives_pure (also.trans same)
  | .loop _ body, _, _, proper, _ =>
    gives_any.bind fun _ _ => (body.resolve_behind proper.2.1 proper.2.2).bind fun _ same =>
      gives_pure same
  | .misplaced _, _, _, proper, _ => proper.elim
  | .varDecl _ _, _, _, _, declares | .funDecl _ _ _, _, _, _, declares => by cases declares

theorem resolve_branch_thinned {kept : List Bool} {slim : List Scope}
    (thinned : Scope.Thinned kept scopes slim) {stmt : Stmt} (proper : stmt.Proper)
    (declares : stmt.declared = []) :
    (stmt.resolve scopes inFunction).Follows (stmt.resolve slim inFunction) fun result other =>
      result.1.Thinned kept other.1 ∧ result.2 = scopes := by
  intro result uses yields
  obtain ⟨other, more, also, holds⟩ := stmt.resolve_thinned thinned proper (.inr declares) _ _ yields
  exact ⟨other, more, also, holds.1, stmt.resolve_behind proper declares _ _ yields⟩

theorem resolve_pair (first second : Stmt) (scopes : List Scope) (inFunction : Bool) :
    (block [first, second]).resolve scopes inFunction = (do
      let (first, inner) ← first.resolve ([] :: scopes) inFunction
      let (second, _) ← second.resolve inner inFunction
      return (.block [first, second], scopes)) := by
  rw [resolve, resolveAll]
  cases first.resolve ([] :: scopes) inFunction with
  | malformed => rfl
  | ok result uses errors =>
    obtain ⟨first, inner⟩ := result
    dsimp only [Bind.bind, Resolution.bind, Pure.pure, Resolution.pure]
    rw [resolveAll]
    dsimp only [Bind.bind, Resolution.bind, Pure.pure, Resolution.pure]
    cases second.resolve inner inFunction with
    | malformed => rfl
    | ok result more others =>
      obtain ⟨second, behind⟩ := result
      simp [resolveAll, Resolution.pure]

theorem resolve_settled : ∀ (stmt : Stmt) {scopes : List Scope} {inFunction : Bool},
    Scope.Settled scopes →
    (stmt.resolve scopes inFunction).Gives fun result => Scope.Settled result.2
  | .expression _, _, _, settled | .print _, _, _, settled | .block _, _, _, settled =>
    gives_any.bind fun _ _ => gives_pure settled
  | .ret _ _, _, _, settled =>
    gives_any.bind fun _ _ => gives_any.bind fun _ _ => gives_pure settled
  | .varDecl name _, _, _, settled => gives_any.bind fun _ _ => gives_pure (settled.mark name)
  | .funDecl name _ _, _, _, settled => gives_any.bind fun _ _ => gives_pure (settled.mark name)
  | .conditional _ yes none, _, _, settled =>
    gives_any.bind fun _ _ => (yes.resolve_settled settled).bind fun _ still => gives_pure still
  | .conditional _ yes (some no), _, _, settled =>
    gives_any.bind fun _ _ => (yes.resolve_settled settled).bind fun _ still =>
      (no.resolve_settled still).bind fun _ last => gives_pure last
  | .loop _ body, _, _, settled =>
    gives_any.bind fun _ _ => (body.resolve_settled settled).bind fun _ still => gives_pure still
  | .misplaced _, _, _, _ => fun _ _ same => by cases same

end Stmt

namespace Scope

/-- The scopes around a statement of an accepted program, and whether it stands in a function:
at the top, behind a statement that is accepted, in a block, or in the body of a function. -/
inductive Around : List Scope → Bool → Prop where
  | top : Around [] false
  | behind {scopes behind : List Scope} {inFunction : Bool} {stmt resolved : Stmt}
      {uses : List LocalUse} :
      Around scopes inFunction → (stmt.resolve scopes inFunction).Yields (resolved, behind) uses →
      Around behind inFunction
  | block {scopes : List Scope} {inFunction : Bool} :
      Around scopes inFunction → Around ([] :: scopes) inFunction
  | body {scopes : List Scope} {inFunction : Bool} (name : Token) (params : List Token) :
      Around scopes inFunction → Around (ofParams params :: mark name true scopes) true

theorem settled_ofParams (params : List Token) (scopes : List Scope) :
    Settled (ofParams params :: scopes) := by
  intro name
  have ready := Region.ready?_scope ⟨(params.map (·.lexeme)).reverse, []⟩ name.lexeme
  simp only [unready, List.head?_cons, Option.any_some, decide_eq_false_iff_not]
  rw [Region.ofParams_eq]
  unfold Region.scope at ready
  rw [ready]
  split <;> simp

theorem Around.settled (around : Around scopes inFunction) : Settled scopes := by
  induction around with
  | top => exact fun _ => rfl
  | behind _ yields settled => exact Stmt.resolve_settled _ settled _ _ yields
  | block => exact settled_enter _
  | body _ params => exact settled_ofParams params _

end Scope

namespace ForLoop

theorem condition_follows (condition : Option Expr) :
    ((condition.getD (.literal (.bool true))).resolve scopes).Follows
      (Expr.resolveOption scopes condition)
      fun resolved other => resolved = other.getD (.literal (.bool true)) := by
  cases condition with
  | none => exact follows_pure rfl
  | some condition =>
    intro resolved uses yields
    exact ⟨some resolved, uses, yields.map rfl, rfl⟩

theorem increment_follows {kept : List Bool} {slim : List Scope}
    (thinned : Scope.Thinned kept scopes slim) (increment : Expr) :
    ((Stmt.expression increment).resolve scopes inFunction).Follows
      (Expr.resolveOption slim (some increment)) fun result other =>
        ∃ wide, result.1 = .expression wide ∧ Option.Rel (Expr.Thinned kept) (some wide) other := by
  have follows : (increment.resolve scopes).Follows (Expr.resolveOption slim (some increment))
      fun wide other => Option.Rel (Expr.Thinned kept) (some wide) other := by
    intro wide uses yields
    obtain ⟨second, more, also, holds⟩ := increment.resolve_thinned thinned _ _ yields
    exact ⟨some second, more, also.map rfl, .some holds⟩
  exact follows.map fun holds => ⟨_, rfl, _, rfl, holds⟩

theorem step_follows {loop : ForLoop} (proper : loop.body.Proper)
    (declares : loop.body.declared = []) (settled : Scope.Settled inner) :
    (loop.step.resolve inner inFunction).Follows (loop.resolveStep inner inFunction)
      fun result parts => ∃ wide : ForLoop, result = (wide.step, inner) ∧
        wide.body.Thinned wide.turnScopes parts.1 ∧
        Option.Rel (Expr.Thinned wide.turnScopes) wide.increment parts.2 := by
  unfold resolveStep step
  cases loop.increment with
  | none =>
    intro result uses yields
    obtain ⟨parts, more, also, thinned, same⟩ :=
      Stmt.resolve_branch_thinned (.same inner) proper declares result uses yields
    refine ⟨(parts.1, none), more, also.map rfl, ⟨none, none, none, result.1⟩, ?_, thinned, .none⟩
    rw [← same]
  | some increment =>
    -- The tree has one more scope around the increment, in which nothing is declared.
    have skip : Scope.Thinned [false] ([] :: inner) inner := .skip (.same inner) settled
    dsimp only
    rw [Stmt.resolve_pair]
    refine (Stmt.resolve_branch_thinned skip proper declares).bind fun {result parts} same => ?_
    obtain ⟨body, behind⟩ := result
    obtain ⟨thinned, rfl⟩ := same
    refine (increment_follows skip increment).bind fun {result other} same => ?_
    obtain ⟨wide, same, also⟩ := same
    exact follows_pure ⟨⟨none, none, some wide, body⟩,
      congrArg (fun last => (Stmt.block [body, last], inner)) same, thinned, also⟩

theorem rest_follows {loop : ForLoop} (proper : loop.body.Proper)
    (declares : loop.body.declared = []) (settled : Scope.Settled inner)
    (initializer : Option Stmt) :
    (loop.rest.resolve inner inFunction).Follows (do
        let condition ← Expr.resolveOption inner loop.condition
        let (body, increment) ← loop.resolveStep inner inFunction
        return ⟨initializer, condition, increment, body⟩)
      fun result slim => ∃ wide : ForLoop,
        result = (wide.rest, inner) ∧ wide.initializer = initializer ∧ wide.Thinned slim := by
  refine (condition_follows loop.condition).bind fun {_ condition} isCondition => ?_
  refine (step_follows proper declares settled).bind fun {result parts} same => ?_
  obtain ⟨wide, rfl, body, increment⟩ := same
  refine follows_pure ⟨{ wide with initializer, condition }, ?_, rfl, rfl, rfl, increment, body⟩
  rw [isCondition]
  rfl

/-- If the tree of a loop is accepted, so is the loop, and the scopes stay as they are. -/
theorem tree_follows {loop : ForLoop} (proper : loop.body.Proper)
    (declares : loop.body.declared = []) (settled : Scope.Settled scopes) :
    (loop.tree.resolve scopes inFunction).Follows (loop.resolve scopes inFunction)
      fun result slim => ∃ wide : ForLoop, result = (wide.tree, scopes) ∧ wide.Thinned slim := by
  rw [tree_eq]
  unfold resolve
  cases loop.initializer with
  | none =>
    refine .of_pure_bind ?_
    intro result uses yields
    obtain ⟨slim, more, also, wide, rfl, absent, thinned⟩ :=
      rest_follows proper declares settled none result uses yields
    exact ⟨slim, more, also, wide, by rw [tree_eq, absent], thinned⟩
  | some initializer =>
    dsimp only
    rw [Stmt.resolve_pair]
    -- The initializer is resolved in a scope of its own on both sides.
    have first : (initializer.resolve ([] :: scopes) inFunction).Follows
        (resolveInitializer scopes inFunction (some initializer))
        fun result parts => parts = (some result.1, result.2) :=
      fun result uses yields => ⟨_, uses, yields.map rfl, rfl⟩
    refine (first.and_gives (initializer.resolve_settled (Scope.settled_enter scopes))).bind
      fun {result parts} same => ?_
    obtain ⟨rfl, settled⟩ := same
    refine (rest_follows proper declares settled (some result.1)).map fun {last slim} same => ?_
    obtain ⟨wide, rfl, present, thinned⟩ := same
    exact ⟨_, rfl, wide, by rw [tree_eq, present], thinned⟩

end ForLoop

end Lox
