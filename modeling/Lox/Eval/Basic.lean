import Lox.Eval.Names
import Lox.Eval.Operator

/-! Evaluation of expressions and execution of statements.

Fuel bounds the nesting and the repetition of steps; a run that ends gives the
same outcome with any larger amount. Operands are evaluated from left to right,
both before the operator looks at them. However they end, a block goes back to the frame
it came from, and a call does so too and then takes back the count of its own.
-/

set_option autoImplicit false

namespace Lox

/-- Why a call is refused, in the order in which the reasons are tried. -/
def Rules.refusal? {ε : Type} (rules : Rules) (callee : ValueIn ε) (count depth : Nat) :
    Option RuntimeError.Cause :=
  match callee.arity? with
  | none => some .notCallable
  | some arity =>
    if count ≠ arity then some (.arity arity count)
    else if rules.limit.any (fun (limit : Int) => limit ≤ depth) then some .stackOverflow
    else none

def CompletionIn.value {ε : Type} : CompletionIn (ValueIn ε) → ValueIn ε
  | .normal => .nil
  | .returned value => value

mutual

def evaluate (rules : Rules) : Nat → Expr → Machine → Outcome Value
  | 0, _, machine => .cut machine
  | fuel + 1, expr, machine =>
    match expr with
    | .literal value => .done (.literal value) machine
    | .grouping inner => evaluate rules fuel inner machine
    | .unary operator operand =>
      (evaluate rules fuel operand machine).bind fun value machine =>
        .ofExcept (Operator.unary operator value) machine
    | .binary left operator right =>
      (evaluate rules fuel left machine).bind fun left machine =>
        (evaluate rules fuel right machine).bind fun right machine =>
          .ofExcept (Operator.binary operator left right) machine
    | .logical left operator right =>
      (evaluate rules fuel left machine).bind fun left machine =>
        if Operator.decides operator left then .done left machine
        else evaluate rules fuel right machine
    | .reference name distance => .ofExcept (machine.read rules.lookup name distance) machine
    | .assign name value distance =>
      (evaluate rules fuel value machine).bind fun value machine =>
        match machine.locate rules.lookup name distance with
        | .ok found => .done value (machine.replace found name.lexeme value)
        | .error failure => .failed failure machine
    | .call callee paren arguments =>
      (evaluate rules fuel callee machine).bind fun callee machine =>
        (evaluateAll rules fuel arguments machine).bind fun arguments machine =>
          call rules fuel callee arguments paren.line machine
    | .misplaced node => .failed (.fault (.malformed (.expression node.kindName))) machine

def evaluateAll (rules : Rules) : Nat → List Expr → Machine → Outcome (List Value)
  | 0, _, machine => .cut machine
  | _ + 1, [], machine => .done [] machine
  | fuel + 1, first :: others, machine =>
    (evaluate rules fuel first machine).bind fun first machine =>
      (evaluateAll rules fuel others machine).bind fun others machine =>
        .done (first :: others) machine

/-- Call a value; errors of the call itself are reported at `line`. -/
def call (rules : Rules) : Nat → Value → List Value → Int → Machine → Outcome Value
  | 0, _, _, _, machine => .cut machine
  | fuel + 1, callee, arguments, line, machine =>
    match rules.refusal? callee arguments.length machine.depth with
    | some cause => .failed (.runtime ⟨line, cause⟩) machine
    | none =>
      match callee with
      | .closure function =>
        let frame := machine.frame
        let inner := { machine.enter function.env with depth := machine.depth + 1 }
        (((executeAll rules fuel function.body (inner.defineAll function.params arguments)).bind
          fun completion machine => .done completion.value machine).mapState
            (·.backTo frame)).mapState (·.endCall)
      | .native .clock =>
        .done (.number (rules.clock machine.readings))
          { machine with readings := machine.readings + 1 }
      | .literal _ => .failed (.runtime ⟨line, .notCallable⟩) machine

def execute (rules : Rules) : Nat → Stmt → Machine → Outcome Completion
  | 0, _, machine => .cut machine
  | fuel + 1, stmt, machine =>
    match stmt with
    | .expression inner =>
      (evaluate rules fuel inner machine).bind fun _ machine => .done .normal machine
    | .print inner =>
      (evaluate rules fuel inner machine).bind fun value machine =>
        .done .normal (machine.print value.display)
    | .varDecl name none => .done .normal (machine.define name.lexeme .nil)
    | .varDecl name (some initializer) =>
      (evaluate rules fuel initializer machine).bind fun value machine =>
        .done .normal (machine.define name.lexeme value)
    | .block body =>
      let frame := machine.frame
      (executeAll rules fuel body (machine.enter frame)).mapState (·.backTo frame)
    | .conditional condition yes no =>
      (evaluate rules fuel condition machine).bind fun value machine =>
        if value.truthy then execute rules fuel yes machine
        else
          match no with
          | none => .done .normal machine
          | some no => execute rules fuel no machine
    | .loop condition body => executeLoop rules fuel condition body machine
    | .funDecl name params body => .done .normal (machine.defineClosure name params body)
    | .ret _ none => .done (.returned .nil) machine
    | .ret _ (some value) =>
      (evaluate rules fuel value machine).bind fun value machine =>
        .done (.returned value) machine
    | .misplaced node => .failed (.fault (.malformed (.statement node.kindName))) machine

/-- Execute statements in order, up to the first that returns. -/
def executeAll (rules : Rules) : Nat → List Stmt → Machine → Outcome Completion
  | 0, _, machine => .cut machine
  | _ + 1, [], machine => .done .normal machine
  | fuel + 1, first :: others, machine =>
    (execute rules fuel first machine).bind fun completion machine =>
      match completion with
      | .normal => executeAll rules fuel others machine
      | .returned value => .done (.returned value) machine

/-- Repeat a body while its condition holds, or until it returns. -/
def executeLoop (rules : Rules) : Nat → Expr → Stmt → Machine → Outcome Completion
  | 0, _, _, machine => .cut machine
  | fuel + 1, condition, body, machine =>
    (evaluate rules fuel condition machine).bind fun value machine =>
      if value.truthy then
        (execute rules fuel body machine).bind fun completion machine =>
          match completion with
          | .normal => executeLoop rules fuel condition body machine
          | .returned value => .done (.returned value) machine
      else .done .normal machine

end

/-- Run top-level statements. A return ends them quietly, and the state goes back
to the globals however they end. -/
def interpret (rules : Rules) (fuel : Nat) (statements : List Stmt) (machine : Machine) :
    Outcome Unit :=
  ((executeAll rules fuel statements machine).bind fun _ machine => .done () machine).mapState
    Machine.reset

end Lox
