import Lox.Value
import Lox.Failure

/-! Operators on values.

Equality and addition have rules of their own; every other binary operator asks
for two numbers before it asks which operator it is.
-/

set_option autoImplicit false

namespace Lox.Operator

open Token (Kind)

variable {ε : Type}

def runtimeError {α : Type} (token : Token) (cause : RuntimeError.Cause) : Except Failure α :=
  .error (.runtime ⟨token.line, cause⟩)

def malformed {α : Type} (shape : Malformed) : Except Failure α :=
  .error (.fault (.malformed shape))

def unary (operator : Token) (operand : ValueIn ε) : Except Failure (ValueIn ε) :=
  match operator.kind with
  | .bang => .ok (.bool !operand.truthy)
  | .minus =>
    match operand with
    | .literal (.number value) => .ok (.number value.negate)
    | _ => runtimeError operator .numberOperand
  | _ => malformed (.unary operator.lexeme)

def add (operator : Token) : ValueIn ε → ValueIn ε → Except Failure (ValueIn ε)
  | .literal (.number left), .literal (.number right) => .ok (.number (left + right))
  | .literal (.string left), .literal (.string right) => .ok (.string (left ++ right))
  | _, _ => runtimeError operator .numberOrStringOperands

def numeric? (kind : Kind) (left right : Number) : Option (ValueIn ε) :=
  match kind with
  | .greater => some (.bool (decide (right < left)))
  | .greaterEqual => some (.bool (decide (right ≤ left)))
  | .less => some (.bool (decide (left < right)))
  | .lessEqual => some (.bool (decide (left ≤ right)))
  | .minus => some (.number (left - right))
  | .star => some (.number (left * right))
  | .slash => some (.number (left / right))
  | _ => none

def arithmetic (operator : Token) : ValueIn ε → ValueIn ε → Except Failure (ValueIn ε)
  | .literal (.number left), .literal (.number right) =>
    match numeric? operator.kind left right with
    | some value => .ok value
    | none => malformed (.binary operator.lexeme)
  | _, _ => runtimeError operator .numberOperands

def binary (operator : Token) (left right : ValueIn ε) : Except Failure (ValueIn ε) :=
  match operator.kind with
  | .bangEqual => .ok (.bool !(left.equal right))
  | .equalEqual => .ok (.bool (left.equal right))
  | .plus => add operator left right
  | _ => arithmetic operator left right

/-- Whether a left operand already decides a logical operation; every operator
but `or` is read as `and`. -/
def decides (operator : Token) (left : ValueIn ε) : Bool :=
  if operator.kind = .orWord then left.truthy else !left.truthy

end Lox.Operator
