import Lox.Syntax.Parsed

/-! Reading expressions.

From the loosest to the tightest: assignment, which groups to the right; the
binary tiers, which group to the left; prefix operators; calls; and primary
expressions. Every rule is given the parser for the expressions inside it, and
each such expression stands behind at least one token of its own.
-/

set_option autoImplicit false

namespace Lox.Syntax

structure Tier where
  operators : List Token.Kind
  build : Expr → Token → Expr → Expr

namespace Tier

def all : List Tier := [
  ⟨[.slash, .star], .binary⟩,
  ⟨[.minus, .plus], .binary⟩,
  ⟨[.greater, .greaterEqual, .less, .lessEqual], .binary⟩,
  ⟨[.bangEqual, .equalEqual], .binary⟩,
  ⟨[.andWord], .logical⟩,
  ⟨[.orWord], .logical⟩]

/-- Extend a left operand by all operators of the tier that follow it. -/
def extend (tier : Tier) (operand : Parser Expr) : Nat → Expr → Parser Expr
  | 0, _ => .exhausted
  | fuel + 1, left => do
    match ← Parser.accept? tier.operators with
    | none => pure left
    | some operator =>
      let right ← operand
      tier.extend operand fuel (tier.build left operator right)

def parser (fuel : Nat) (operand : Parser Expr) (tier : Tier) : Parser Expr := do
  let first ← operand
  tier.extend operand fuel first

end Tier

namespace ExprParser

/-- The number of arguments or parameters that is still no error. -/
def maxArguments : Nat := 255

def primary (expression : Parser Expr) : Parser Expr
  | [] => Parser.stop .expression []
  | token :: rest =>
    match token.kind with
    | .falseWord => .ok (.literal (.bool false)) rest []
    | .trueWord => .ok (.literal (.bool true)) rest []
    | .nilWord => .ok (.literal .nil) rest []
    | .number | .string => .ok (.literal (token.literal.getD .nil)) rest []
    | .identifier => .ok (.reference token none) rest []
    | .leftParen =>
      (do
        let inner ← expression
        let _ ← Parser.expect .rightParen .parenAfterExpression
        pure (Expr.grouping inner) : Parser Expr) rest
    | _ => Parser.stop .expression (token :: rest)

def arguments (fuel : Nat) (expression : Parser Expr) : Parser (List Expr) := do
  if ← Parser.nextIs .rightParen then pure []
  else Parser.separated expression .tooManyArguments fuel maxArguments

def extendCall (expression : Parser Expr) : Nat → Expr → Parser Expr
  | 0, _ => .exhausted
  | fuel + 1, callee => do
    match ← Parser.accept? [.leftParen] with
    | none => pure callee
    | some _ =>
      let arguments ← arguments fuel expression
      let paren ← Parser.expect .rightParen .parenAfterArguments
      extendCall expression fuel (.call callee paren arguments)

def call (fuel : Nat) (expression : Parser Expr) : Parser Expr := do
  let callee ← primary expression
  extendCall expression fuel callee

/-- Any number of prefix operators before an operand. -/
def unary (operand : Parser Expr) : Parser Expr
  | [] => operand []
  | token :: rest =>
    if token.kind = .bang ∨ token.kind = .minus then
      (unary operand rest).bind fun inner rest => .ok (.unary token inner) rest []
    else operand (token :: rest)

/-- All that may stand to the left of an assignment's equal sign. -/
def operation (fuel : Nat) (expression : Parser Expr) : Parser Expr :=
  Tier.all.foldl (Tier.parser fuel) (unary (call fuel expression))

/-- The target is read as any operation and checked afterwards; a wrong one is
noted at the equal sign and stands for the whole assignment. -/
def assignment (fuel : Nat) (expression : Parser Expr) : Parser Expr := do
  let target ← operation fuel expression
  match ← Parser.accept? [.equal] with
  | none => pure target
  | some equals =>
    let value ← expression
    match target with
    | .reference name _ => pure (.assign name value none)
    | _ =>
      Parser.noteAt (some equals) .assignmentTarget
      pure target

def expression : Nat → Parser Expr
  | 0 => .exhausted
  | fuel + 1 => assignment fuel (expression fuel)

end ExprParser

end Lox.Syntax
