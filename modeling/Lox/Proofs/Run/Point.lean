import Mathlib.Logic.Relation
import Lox.Proofs.Frames.Growth

/-! The points that a run comes to.

A point is a task with the fuel and the state in which it begins. It starts the
tasks that its own rule asks for, each in the state that the ones before it left.
A failed task either raises the failure itself or has started one that failed, so a
run that fails has come to the point that raised the failure.
-/

set_option autoImplicit false

namespace Lox

namespace Task

def Operand : Task → Prop
  | .evaluate _ | .evaluateAll _ => True
  | _ => False

end Task

structure Point where
  task : Task
  fuel : Nat
  machine : Machine

namespace Point

section
variable (rules : Rules)

inductive Starts : Point → Point → Prop where
  | grouping {fuel : Nat} {machine : Machine} {inner : Expr} :
      Starts ⟨.evaluate (.grouping inner), fuel + 1, machine⟩ ⟨.evaluate inner, fuel, machine⟩
  | unary {fuel : Nat} {machine : Machine} {operator : Token} {operand : Expr} :
      Starts ⟨.evaluate (.unary operator operand), fuel + 1, machine⟩
        ⟨.evaluate operand, fuel, machine⟩
  | binaryLeft {fuel : Nat} {machine : Machine} {operator : Token} {left right : Expr} :
      Starts ⟨.evaluate (.binary left operator right), fuel + 1, machine⟩
        ⟨.evaluate left, fuel, machine⟩
  | binaryRight {fuel : Nat} {machine after : Machine} {operator : Token} {left right : Expr}
      {value : Value} :
      evaluate rules fuel left machine = .done value after →
      Starts ⟨.evaluate (.binary left operator right), fuel + 1, machine⟩
        ⟨.evaluate right, fuel, after⟩
  | logicalLeft {fuel : Nat} {machine : Machine} {operator : Token} {left right : Expr} :
      Starts ⟨.evaluate (.logical left operator right), fuel + 1, machine⟩
        ⟨.evaluate left, fuel, machine⟩
  | logicalRight {fuel : Nat} {machine after : Machine} {operator : Token} {left right : Expr}
      {value : Value} :
      evaluate rules fuel left machine = .done value after →
      Operator.decides operator value = false →
      Starts ⟨.evaluate (.logical left operator right), fuel + 1, machine⟩
        ⟨.evaluate right, fuel, after⟩
  | assigned {fuel : Nat} {machine : Machine} {name : Token} {value : Expr}
      {distance : Option Nat} :
      Starts ⟨.evaluate (.assign name value distance), fuel + 1, machine⟩
        ⟨.evaluate value, fuel, machine⟩
  | callee {fuel : Nat} {machine : Machine} {callee : Expr} {paren : Token}
      {arguments : List Expr} :
      Starts ⟨.evaluate (.call callee paren arguments), fuel + 1, machine⟩
        ⟨.evaluate callee, fuel, machine⟩
  | arguments {fuel : Nat} {machine after : Machine} {callee : Expr} {paren : Token}
      {arguments : List Expr} {value : Value} :
      evaluate rules fuel callee machine = .done value after →
      Starts ⟨.evaluate (.call callee paren arguments), fuel + 1, machine⟩
        ⟨.evaluateAll arguments, fuel, after⟩
  | call {fuel : Nat} {machine middle after : Machine} {callee : Expr} {paren : Token}
      {arguments : List Expr} {value : Value} {values : List Value} :
      evaluate rules fuel callee machine = .done value middle →
      evaluateAll rules fuel arguments middle = .done values after →
      Starts ⟨.evaluate (.call callee paren arguments), fuel + 1, machine⟩
        ⟨.call value values paren.line, fuel, after⟩
  | firstExpr {fuel : Nat} {machine : Machine} {first : Expr} {others : List Expr} :
      Starts ⟨.evaluateAll (first :: others), fuel + 1, machine⟩ ⟨.evaluate first, fuel, machine⟩
  | otherExprs {fuel : Nat} {machine after : Machine} {first : Expr} {others : List Expr}
      {value : Value} :
      evaluate rules fuel first machine = .done value after →
      Starts ⟨.evaluateAll (first :: others), fuel + 1, machine⟩ ⟨.evaluateAll others, fuel, after⟩
  | body {fuel : Nat} {machine : Machine} {function : Closure} {arguments : List Value}
      {line : Int} :
      rules.refusal? (.closure function) arguments.length machine.depth = none →
      Starts ⟨.call (.closure function) arguments line, fuel + 1, machine⟩
        ⟨.executeAll function.body, fuel, machine.enterCall function arguments⟩
  | expression {fuel : Nat} {machine : Machine} {inner : Expr} :
      Starts ⟨.execute (.expression inner), fuel + 1, machine⟩ ⟨.evaluate inner, fuel, machine⟩
  | print {fuel : Nat} {machine : Machine} {inner : Expr} :
      Starts ⟨.execute (.print inner), fuel + 1, machine⟩ ⟨.evaluate inner, fuel, machine⟩
  | initializer {fuel : Nat} {machine : Machine} {name : Token} {initializer : Expr} :
      Starts ⟨.execute (.varDecl name (some initializer)), fuel + 1, machine⟩
        ⟨.evaluate initializer, fuel, machine⟩
  | block {fuel : Nat} {machine : Machine} {body : List Stmt} :
      Starts ⟨.execute (.block body), fuel + 1, machine⟩
        ⟨.executeAll body, fuel, machine.enter machine.frame⟩
  | condition {fuel : Nat} {machine : Machine} {condition : Expr} {yes : Stmt}
      {no : Option Stmt} :
      Starts ⟨.execute (.conditional condition yes no), fuel + 1, machine⟩
        ⟨.evaluate condition, fuel, machine⟩
  | yes {fuel : Nat} {machine after : Machine} {condition : Expr} {yes : Stmt}
      {no : Option Stmt} {value : Value} :
      evaluate rules fuel condition machine = .done value after → value.truthy = true →
      Starts ⟨.execute (.conditional condition yes no), fuel + 1, machine⟩ ⟨.execute yes, fuel, after⟩
  | no {fuel : Nat} {machine after : Machine} {condition : Expr} {yes no : Stmt} {value : Value} :
      evaluate rules fuel condition machine = .done value after → value.truthy = false →
      Starts ⟨.execute (.conditional condition yes (some no)), fuel + 1, machine⟩
        ⟨.execute no, fuel, after⟩
  | loop {fuel : Nat} {machine : Machine} {condition : Expr} {body : Stmt} :
      Starts ⟨.execute (.loop condition body), fuel + 1, machine⟩
        ⟨.executeLoop condition body, fuel, machine⟩
  | returned {fuel : Nat} {machine : Machine} {keyword : Token} {value : Expr} :
      Starts ⟨.execute (.ret keyword (some value)), fuel + 1, machine⟩
        ⟨.evaluate value, fuel, machine⟩
  | firstStmt {fuel : Nat} {machine : Machine} {first : Stmt} {others : List Stmt} :
      Starts ⟨.executeAll (first :: others), fuel + 1, machine⟩ ⟨.execute first, fuel, machine⟩
  | otherStmts {fuel : Nat} {machine after : Machine} {first : Stmt} {others : List Stmt} :
      execute rules fuel first machine = .done .normal after →
      Starts ⟨.executeAll (first :: others), fuel + 1, machine⟩ ⟨.executeAll others, fuel, after⟩
  | loopCondition {fuel : Nat} {machine : Machine} {condition : Expr} {body : Stmt} :
      Starts ⟨.executeLoop condition body, fuel + 1, machine⟩ ⟨.evaluate condition, fuel, machine⟩
  | loopBody {fuel : Nat} {machine after : Machine} {condition : Expr} {body : Stmt}
      {value : Value} :
      evaluate rules fuel condition machine = .done value after → value.truthy = true →
      Starts ⟨.executeLoop condition body, fuel + 1, machine⟩ ⟨.execute body, fuel, after⟩
  | loopAgain {fuel : Nat} {machine middle after : Machine} {condition : Expr} {body : Stmt}
      {value : Value} :
      evaluate rules fuel condition machine = .done value middle → value.truthy = true →
      execute rules fuel body middle = .done .normal after →
      Starts ⟨.executeLoop condition body, fuel + 1, machine⟩
        ⟨.executeLoop condition body, fuel, after⟩

/-- The points that a run from a point comes to. -/
def Reaches : Point → Point → Prop := Relation.ReflTransGen (Starts rules)

/-- The points inside one expression, without those of the functions that it calls. -/
def Within : Point → Point → Prop :=
  Relation.ReflTransGen fun point next => Starts rules point next ∧ next.task.Operand

/-- The failures that a task raises itself. -/
inductive Raises : Point → Failure → Prop where
  | unary {fuel : Nat} {machine after : Machine} {operator : Token} {operand : Expr}
      {value : Value} {failure : Failure} :
      evaluate rules fuel operand machine = .done value after →
      Operator.unary operator value = .error failure →
      Raises ⟨.evaluate (.unary operator operand), fuel + 1, machine⟩ failure
  | binary {fuel : Nat} {machine middle after : Machine} {operator : Token} {left right : Expr}
      {first second : Value} {failure : Failure} :
      evaluate rules fuel left machine = .done first middle →
      evaluate rules fuel right middle = .done second after →
      Operator.binary operator first second = .error failure →
      Raises ⟨.evaluate (.binary left operator right), fuel + 1, machine⟩ failure
  | reference {fuel : Nat} {machine : Machine} {name : Token} {distance : Option Nat}
      {failure : Failure} :
      machine.read rules.lookup name distance = .error failure →
      Raises ⟨.evaluate (.reference name distance), fuel + 1, machine⟩ failure
  | assign {fuel : Nat} {machine after : Machine} {name : Token} {value : Expr}
      {distance : Option Nat} {result : Value} {failure : Failure} :
      evaluate rules fuel value machine = .done result after →
      after.locate rules.lookup name distance = .error failure →
      Raises ⟨.evaluate (.assign name value distance), fuel + 1, machine⟩ failure
  | refused {fuel : Nat} {machine : Machine} {callee : Value} {arguments : List Value} {line : Int}
      {cause : RuntimeError.Cause} :
      rules.refusal? callee arguments.length machine.depth = some cause →
      Raises ⟨.call callee arguments line, fuel + 1, machine⟩ (.runtime ⟨line, cause⟩)
  | misplacedExpr {fuel : Nat} {machine : Machine} {node : Node} :
      Raises ⟨.evaluate (.misplaced node), fuel + 1, machine⟩
        (.fault (.malformed (.expression node.kindName)))
  | misplacedStmt {fuel : Nat} {machine : Machine} {node : Node} :
      Raises ⟨.execute (.misplaced node), fuel + 1, machine⟩
        (.fault (.malformed (.statement node.kindName)))

def Blamed (point : Point) (failure : Failure) : Prop :=
  ∃ culprit, Reaches rules point culprit ∧ Raises rules culprit failure

end

end Point

namespace OutcomeIn

variable {σ α β : Type} {blamed : Failure → Prop}

def FailsWith (outcome : OutcomeIn σ α) (blamed : Failure → Prop) : Prop :=
  ∀ failure state, outcome = .failed failure state → blamed failure

theorem FailsWith.mono {outcome : OutcomeIn σ α} {others : Failure → Prop}
    (fails : outcome.FailsWith blamed) (weaker : ∀ failure, blamed failure → others failure) :
    outcome.FailsWith others :=
  fun failure state same => weaker failure (fails failure state same)

theorem failsWith_done {value : α} {state : σ} : (done value state).FailsWith blamed := by
  intro failure other same
  cases same

theorem FailsWith.bind {outcome : OutcomeIn σ α} {next : α → σ → OutcomeIn σ β}
    (fails : outcome.FailsWith blamed)
    (goesOn : ∀ value state, outcome = .done value state → (next value state).FailsWith blamed) :
    (outcome.bind next).FailsWith blamed := by
  cases outcome with
  | done value state => exact goesOn value state rfl
  | failed failure state =>
    intro other last same
    cases same
    exact fails failure state rfl
  | exhausted =>
    intro failure state same
    cases same

theorem FailsWith.mapState {outcome : OutcomeIn σ α} (fails : outcome.FailsWith blamed)
    (change : σ → σ) : (outcome.mapState change).FailsWith blamed := by
  cases outcome with
  | failed failure state =>
    intro other last same
    cases same
    exact fails failure state rfl
  | _ =>
    intro failure state same
    cases same

theorem failsWith_ofExcept {result : Except Failure α} {state : σ}
    (error : ∀ failure, result = .error failure → blamed failure) :
    (ofExcept result state).FailsWith blamed := by
  intro failure last same
  cases result with
  | ok value => cases same
  | error other =>
    cases same
    exact error _ rfl

end OutcomeIn

end Lox
