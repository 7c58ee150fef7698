import Lox.Proofs.Frames.Preservation
import Lox.Proofs.Run.Blame

/-! Every point that a settled run comes to stands in the regions of its text.

A variable is pending only inside its own initializer, so where one is pending the
run has come to the declaration, and its frame is the current one.
-/

set_option autoImplicit false

namespace Lox

variable {allowed : Site → Prop} {rules : Rules} {fuel : Nat} {wholes : List (List String)}
  {regions : List Region} {pending : Option String} {machine after : Machine}

namespace OutcomeIn

theorem Ends.of_done {σ α : Type} {outcome : OutcomeIn σ α} {good : α → σ → Prop} {bad : σ → Prop}
    {value : α} {state : σ} (ends : outcome.Ends good bad) (same : outcome = .done value state) :
    good value state := by
  rw [same] at ends
  exact ends

end OutcomeIn

namespace Machine.Stands

theorem evaluated {expr : Expr} {value : Value} (stands : machine.Stands allowed wholes regions)
    (uses : expr.EveryUse allowed regions pending)
    (ran : evaluate rules fuel expr machine = .done value after) :
    ∃ more, machine.Settles allowed (fun _ => False) regions wholes [value] more after :=
  ((settlesWith allowed rules fuel).evaluate stands uses).of_done ran

theorem evaluatedAll {exprs : List Expr} {values : List Value}
    (stands : machine.Stands allowed wholes regions)
    (uses : Expr.EveryUseIn allowed regions pending exprs)
    (ran : evaluateAll rules fuel exprs machine = .done values after) :
    ∃ more, machine.Settles allowed (fun _ => False) regions wholes values more after :=
  ((settlesWith allowed rules fuel).evaluateAll stands uses).of_done ran

theorem executed {stmt : Stmt} (stands : machine.Stands allowed wholes regions)
    (proper : stmt.Proper) (uses : stmt.EveryUse allowed regions)
    (opens : ∀ name ∈ stmt.declared, Region.Open regions name)
    (ran : execute rules fuel stmt machine = .done .normal after) :
    ∃ more, machine.Settles allowed (· = machine.frame) (stmt.behind regions) wholes [] more after :=
  ((settlesWith allowed rules fuel).execute stands proper uses opens).of_done ran

theorem frame_ne_globals {region : Region}
    (stands : machine.Stands allowed wholes (region :: regions)) : machine.frame ≠ Machine.globals := by
  obtain ⟨_, _, notRoot, _⟩ := Store.Along.chain_inner stands.fits
  exact notRoot

end Machine.Stands

namespace Point

theorem Starts.frame_eq {point next : Point} (starts : Starts rules point next)
    (operand : next.task.Operand) : next.machine.frame = point.machine.frame := by
  have unmoved : ∀ {fuel : Nat} {expr : Expr} {value : Value} {machine after : Machine},
      evaluate rules fuel expr machine = .done value after → after.frame = machine.frame :=
    fun ran => (((growsWith rules _).evaluate _ _).of_done ran).frame
  cases starts with
  | binaryRight ran => exact unmoved ran
  | logicalRight ran _ => exact unmoved ran
  | arguments ran => exact unmoved ran
  | otherExprs ran => exact unmoved ran
  | call | body | block | yes | no | loop | firstStmt | otherStmts | loopBody | loopAgain =>
    cases operand
  | _ => rfl

/-- A point inside the initializer of a local variable, in the frame of that variable. -/
def InInitializer (rules : Rules) (start : Point) (name : String) (point : Point) : Prop :=
  ∃ (token : Token) (initializer : Expr) (fuel : Nat) (machine : Machine),
    Reaches rules start ⟨.execute (.varDecl token (some initializer)), fuel + 1, machine⟩ ∧
    token.lexeme = name ∧ machine.frame ≠ Machine.globals ∧
    Within rules ⟨.evaluate initializer, fuel, machine⟩ point ∧ point.machine.frame = machine.frame

theorem InInitializer.operand {start point next : Point} {name : String}
    (inside : InInitializer rules start name point) (starts : Starts rules point next)
    (operand : next.task.Operand) : InInitializer rules start name next := by
  obtain ⟨token, initializer, fuel, machine, reaches, same, inner, within, here⟩ := inside
  exact ⟨token, initializer, fuel, machine, reaches, same, inner, within.tail ⟨starts, operand⟩,
    (starts.frame_eq operand).trans here⟩

/-- The machine stands in the regions of the task, and the trees and values of the
task are in order there. -/
inductive Stands (allowed : Site → Prop) (own : String → Prop) : Point → Prop where
  | evaluate {wholes : List (List String)} {regions : List Region} {pending : Option String}
      {expr : Expr} {fuel : Nat} {machine : Machine} :
      machine.Stands allowed wholes regions → expr.Proper → expr.EveryUse allowed regions pending →
      (∀ name ∈ pending, own name) → Stands allowed own ⟨.evaluate expr, fuel, machine⟩
  | evaluateAll {wholes : List (List String)} {regions : List Region} {pending : Option String}
      {exprs : List Expr} {fuel : Nat} {machine : Machine} :
      machine.Stands allowed wholes regions → Expr.AllProper exprs →
      Expr.EveryUseIn allowed regions pending exprs → (∀ name ∈ pending, own name) →
      Stands allowed own ⟨.evaluateAll exprs, fuel, machine⟩
  | call {wholes : List (List String)} {regions : List Region} {callee : Value}
      {arguments : List Value} {line : Int} {fuel : Nat} {machine : Machine} :
      machine.Stands allowed wholes regions → callee.Settled allowed wholes machine.store →
      (∀ argument ∈ arguments, argument.Settled allowed wholes machine.store) →
      Stands allowed own ⟨.call callee arguments line, fuel, machine⟩
  | execute {wholes : List (List String)} {regions : List Region} {stmt : Stmt} {fuel : Nat}
      {machine : Machine} :
      machine.Stands allowed wholes regions → stmt.Proper → stmt.EveryUse allowed regions →
      (∀ name ∈ stmt.declared, Region.Open regions name) →
      Stands allowed own ⟨.execute stmt, fuel, machine⟩
  | executeAll {wholes : List (List String)} {regions : List Region} {stmts : List Stmt}
      {fuel : Nat} {machine : Machine} :
      machine.Stands allowed wholes regions → Stmt.AllProper stmts →
      Stmt.EveryUseIn allowed regions stmts →
      (∀ name ∈ Stmt.declaredIn stmts, Region.Open regions name) →
      Stands allowed own ⟨.executeAll stmts, fuel, machine⟩
  | executeLoop {wholes : List (List String)} {regions : List Region} {condition : Expr}
      {body : Stmt} {fuel : Nat} {machine : Machine} :
      machine.Stands allowed wholes regions → condition.Proper →
      condition.EveryUse allowed regions none → body.Proper → body.declared = [] →
      body.EveryUse allowed regions → Stands allowed own ⟨.executeLoop condition body, fuel, machine⟩

namespace Stands

variable {own : String → Prop} {start point next : Point}

theorem plain {expr : Expr} (stands : machine.Stands allowed wholes regions) (proper : expr.Proper)
    (uses : expr.EveryUse allowed regions none) :
    Stands allowed own ⟨.evaluate expr, fuel, machine⟩ :=
  .evaluate stands proper uses (by simp)

theorem branch {stmt : Stmt} (stands : machine.Stands allowed wholes regions) (proper : stmt.Proper)
    (nothing : stmt.declared = []) (uses : stmt.EveryUse allowed regions) :
    Stands allowed own ⟨.execute stmt, fuel, machine⟩ :=
  .execute stands proper uses (Region.open_of_nothing nothing)

theorem initializer {name : Token} {initializer : Expr}
    (reached : Reaches rules start
      ⟨.execute (.varDecl name (some initializer)), fuel + 1, machine⟩)
    (stands : machine.Stands allowed wholes regions) (proper : initializer.Proper)
    (uses : initializer.EveryUse allowed regions (Region.pending? regions name)) :
    Stands allowed
      (InInitializer rules start · ⟨.evaluate initializer, fuel, machine⟩)
      ⟨.evaluate initializer, fuel, machine⟩ := by
  apply Stands.evaluate stands proper uses
  intro other pending
  cases regions with
  | nil => cases pending
  | cons inner outer =>
    cases pending
    exact ⟨name, initializer, fuel, machine, reached, rfl, stands.frame_ne_globals, .refl, rfl⟩

section
variable {expr : Expr} {exprs : List Expr} {stmt : Stmt} {stmts : List Stmt}

/-- What an expression starts. A variable that is pending stays so, since operands are
evaluated in the frame of the expression. -/
theorem step_evaluate (starts : Starts rules ⟨.evaluate expr, fuel, machine⟩ next)
    (stands : machine.Stands allowed wholes regions) (proper : expr.Proper)
    (uses : expr.EveryUse allowed regions pending)
    (inside : ∀ name ∈ pending, InInitializer rules start name ⟨.evaluate expr, fuel, machine⟩) :
    next.Stands allowed (InInitializer rules start · next) := by
  -- The operands of an expression inside an initializer are inside it too.
  have stays : next.task.Operand → ∀ name ∈ pending, InInitializer rules start name next :=
    fun operand name member => (inside name member).operand starts operand
  cases starts with
  | grouping => exact .evaluate stands proper uses (stays trivial)
  | unary => exact .evaluate stands proper.2 uses (stays trivial)
  | binaryLeft => exact .evaluate stands proper.1 uses.1 (stays trivial)
  | binaryRight ran =>
    obtain ⟨more, settles⟩ := stands.evaluated uses.1 ran
    exact .evaluate settles.stands proper.2.2 uses.2 (stays trivial)
  | logicalLeft => exact .evaluate stands proper.1 uses.1 (stays trivial)
  | logicalRight ran =>
    obtain ⟨more, settles⟩ := stands.evaluated uses.1 ran
    exact .evaluate settles.stands proper.2 uses.2 (stays trivial)
  | assigned => exact .evaluate stands proper uses.1 (stays trivial)
  | callee => exact .evaluate stands proper.1 uses.1 (stays trivial)
  | arguments ran =>
    obtain ⟨more, settles⟩ := stands.evaluated uses.1 ran
    exact .evaluateAll settles.stands proper.2 uses.2 (stays trivial)
  | call ran ranAll =>
    obtain ⟨more, first⟩ := stands.evaluated uses.1 ran
    obtain ⟨most, second⟩ := first.stands.evaluatedAll uses.2 ranAll
    exact .call second.stands (second.still first.values _ (by simp)) second.values

theorem step_evaluateAll (starts : Starts rules ⟨.evaluateAll exprs, fuel, machine⟩ next)
    (stands : machine.Stands allowed wholes regions) (proper : Expr.AllProper exprs)
    (uses : Expr.EveryUseIn allowed regions pending exprs)
    (inside : ∀ name ∈ pending,
      InInitializer rules start name ⟨.evaluateAll exprs, fuel, machine⟩) :
    next.Stands allowed (InInitializer rules start · next) := by
  have stays : next.task.Operand → ∀ name ∈ pending, InInitializer rules start name next :=
    fun operand name member => (inside name member).operand starts operand
  cases starts with
  | firstExpr => exact .evaluate stands proper.1 uses.1 (stays trivial)
  | otherExprs ran =>
    obtain ⟨more, settles⟩ := stands.evaluated uses.1 ran
    exact .evaluateAll settles.stands proper.2 uses.2 (stays trivial)

theorem step_call {callee : Value} {arguments : List Value} {line : Int}
    (starts : Starts rules ⟨.call callee arguments line, fuel, machine⟩ next)
    (stands : machine.Stands allowed wholes regions)
    (settled : callee.Settled allowed wholes machine.store)
    (settledAll : ∀ argument ∈ arguments, argument.Settled allowed wholes machine.store) :
    next.Stands allowed own := by
  cases starts with
  | body accepted =>
    obtain ⟨around, fits, proper, uses⟩ := settled
    have entered := Machine.Stands.enterCall stands.settled fits settledAll
      (Rules.length_eq_of_refusal? accepted)
    exact .executeAll entered proper uses Region.open_ofFunction

theorem step_branch {condition : Expr} {yes taken : Stmt} {no : Option Stmt} {value : Value}
    (stands : machine.Stands allowed wholes regions)
    (proper : (Stmt.conditional condition yes no).Proper)
    (uses : (Stmt.conditional condition yes no).EveryUse allowed regions)
    (member : taken ∈ yes :: no.toList)
    (ran : Lox.evaluate rules fuel condition machine = .done value after) :
    Stands allowed own ⟨.execute taken, fuel, after⟩ := by
  obtain ⟨⟨_, usesCondition⟩, branches⟩ := Stmt.parts_of_conditional proper uses
  obtain ⟨properBranch, nothing, usesBranch⟩ := branches taken member
  obtain ⟨more, settles⟩ := stands.evaluated usesCondition ran
  exact branch settles.stands properBranch nothing usesBranch

theorem step_execute (reached : Reaches rules start ⟨.execute stmt, fuel, machine⟩)
    (starts : Starts rules ⟨.execute stmt, fuel, machine⟩ next)
    (stands : machine.Stands allowed wholes regions) (proper : stmt.Proper)
    (uses : stmt.EveryUse allowed regions) :
    next.Stands allowed (InInitializer rules start · next) := by
  cases starts with
  | expression | print | returned => exact plain stands proper uses
  | initializer => exact initializer reached stands proper uses
  | block => exact .executeAll (stands.enterBlock _) proper uses Region.open_ofBlock
  | condition =>
    have parts := (Stmt.parts_of_conditional proper uses).1
    exact plain stands parts.1 parts.2
  | yes ran => exact step_branch stands proper uses List.mem_cons_self ran
  | no ran => exact step_branch stands proper uses (by simp) ran
  | loop => exact .executeLoop stands proper.1 uses.1 proper.2.1 proper.2.2 uses.2

theorem step_executeAll (starts : Starts rules ⟨.executeAll stmts, fuel, machine⟩ next)
    (stands : machine.Stands allowed wholes regions) (proper : Stmt.AllProper stmts)
    (uses : Stmt.EveryUseIn allowed regions stmts)
    (opens : ∀ name ∈ Stmt.declaredIn stmts, Region.Open regions name) :
    next.Stands allowed own := by
  cases starts with
  | firstStmt => exact .execute stands proper.1 uses.1 (Region.open_first opens)
  | otherStmts ran =>
    obtain ⟨more, settles⟩ := stands.executed proper.1 uses.1 (Region.open_first opens) ran
    exact .executeAll settles.stands proper.2 uses.2 (Region.open_others opens)

theorem step_executeLoop {condition : Expr} {body : Stmt}
    (starts : Starts rules ⟨.executeLoop condition body, fuel, machine⟩ next)
    (stands : machine.Stands allowed wholes regions) (properCondition : condition.Proper)
    (uses : condition.EveryUse allowed regions none) (proper : body.Proper)
    (nothing : body.declared = []) (usesBody : body.EveryUse allowed regions) :
    next.Stands allowed own := by
  cases starts with
  | loopCondition => exact plain stands properCondition uses
  | loopBody ran =>
    obtain ⟨more, settles⟩ := stands.evaluated uses ran
    exact branch settles.stands proper nothing usesBody
  | loopAgain ran _ went =>
    obtain ⟨more, first⟩ := stands.evaluated uses ran
    obtain ⟨most, second⟩ :=
      first.stands.executed proper usesBody (Region.open_of_nothing nothing) went
    -- The body declares nothing, so the next round begins in the same regions.
    rw [Stmt.behind_eq nothing] at second
    exact .executeLoop second.stands properCondition uses proper nothing usesBody

end

theorem step (reached : Reaches rules start point) (starts : Starts rules point next)
    (stands : point.Stands allowed (InInitializer rules start · point)) :
    next.Stands allowed (InInitializer rules start · next) := by
  cases stands with
  | evaluate stands proper uses inside => exact step_evaluate starts stands proper uses inside
  | evaluateAll stands proper uses inside => exact step_evaluateAll starts stands proper uses inside
  | call stands settled settledAll => exact step_call starts stands settled settledAll
  | execute stands proper uses _ => exact step_execute reached starts stands proper uses
  | executeAll stands proper uses opens => exact step_executeAll starts stands proper uses opens
  | executeLoop stands properCondition uses proper nothing usesBody =>
    exact step_executeLoop starts stands properCondition uses proper nothing usesBody

/-- Every point that a standing one leads to stands as well. -/
theorem reach (reaches : Reaches rules start point)
    (stands : start.Stands allowed (InInitializer rules start · start)) :
    point.Stands allowed (InInitializer rules start · point) := by
  induction reaches with
  | refl => exact stands
  | tail reaches starts ih => exact ih.step reaches starts

end Stands

end Point

end Lox
