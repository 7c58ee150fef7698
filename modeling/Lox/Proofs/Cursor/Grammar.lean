import Lox.Proofs.Cursor.Reading

/-! The grammar, read with a cursor.

Each rule looks at the token under the cursor, moves over those that it takes, and turns
back to the one before the cursor for an operator, a name or a keyword.
-/

set_option autoImplicit false

namespace Lox.Syntax.Cursor.Reading

open Token (Kind)

/-! Expressions -/

def extend (tier : Tier) (operand : Reading Expr) : Nat → Expr → Reading Expr
  | 0, _ => exhausted
  | fuel + 1, left => do
    if ← accept tier.operators then
      let operator ← previous
      let right ← operand
      extend tier operand fuel (tier.build left operator right)
    else return left

def binary (fuel : Nat) (operand : Reading Expr) (tier : Tier) : Reading Expr := do
  let first ← operand
  extend tier operand fuel first

def primary (expression : Reading Expr) : Reading Expr := do
  if ← accept [.falseWord] then return .literal (.bool false)
  if ← accept [.trueWord] then return .literal (.bool true)
  if ← accept [.nilWord] then return .literal .nil
  if ← accept [.number, .string] then return .literal ((← previous).literal.getD .nil)
  if ← accept [.identifier] then return .reference (← previous) none
  if ← accept [.leftParen] then
    let inner ← expression
    let _ ← consume .rightParen .parenAfterExpression
    return .grouping inner
  fail .expression

def arguments (fuel : Nat) (expression : Reading Expr) : Reading (List Expr) := do
  if ← check .rightParen then return []
  else items expression .tooManyArguments fuel 0

def finishCall (fuel : Nat) (expression : Reading Expr) (callee : Expr) : Reading Expr := do
  let arguments ← arguments fuel expression
  let paren ← consume .rightParen .parenAfterArguments
  return .call callee paren arguments

def calls (expression : Reading Expr) : Nat → Expr → Reading Expr
  | 0, _ => exhausted
  | fuel + 1, callee => do
    if ← accept [.leftParen] then
      let whole ← finishCall fuel expression callee
      calls expression fuel whole
    else return callee

def call (fuel : Nat) (expression : Reading Expr) : Reading Expr := do
  let callee ← primary expression
  calls expression fuel callee

def unary (operand : Reading Expr) : Nat → Reading Expr
  | 0 => exhausted
  | fuel + 1 => do
    if ← accept [.bang, .minus] then
      let operator ← previous
      let right ← unary operand fuel
      return .unary operator right
    operand

def operation (fuel : Nat) (expression : Reading Expr) : Reading Expr := fun tokens =>
  Tier.all.foldl (binary fuel) (unary (call fuel expression) tokens.length) tokens

def assignment (fuel : Nat) (expression : Reading Expr) : Reading Expr := do
  let target ← operation fuel expression
  if ← accept [.equal] then
    let equals ← previous
    let value ← expression
    match target with
    | .reference name _ => return .assign name value none
    | _ =>
      note equals .assignmentTarget
      return target
  else return target

def expression : Nat → Reading Expr
  | 0 => exhausted
  | fuel + 1 => assignment fuel (expression fuel)

/-! Statements -/

def expressionStatement (fuel : Nat) : Reading Stmt := do
  let value ← expression fuel
  let _ ← consume .semicolon .semicolonAfterExpression
  return .expression value

def varDecl (fuel : Nat) : Reading Stmt := do
  let name ← consume .identifier .variableName
  let initializer ← (do
    if ← accept [.equal] then return some (← expression fuel)
    else return none : Reading (Option Expr))
  let _ ← consume .semicolon .semicolonAfterVariable
  return .varDecl name initializer

def printStatement (fuel : Nat) : Reading Stmt := do
  let value ← expression fuel
  let _ ← consume .semicolon .semicolonAfterValue
  return .print value

def optional (fuel : Nat) (finish : Kind) : Reading (Option Expr) := do
  if ← check finish then return none
  else return some (← expression fuel)

def returnStatement (fuel : Nat) : Reading Stmt := do
  let keyword ← previous
  let value ← optional fuel .semicolon
  let _ ← consume .semicolon .semicolonAfterReturn
  return .ret keyword value

def whileStatement (fuel : Nat) (statement : Reading Stmt) : Reading Stmt := do
  let _ ← consume .leftParen .parenAfterWhile
  let condition ← expression fuel
  let _ ← consume .rightParen .parenAfterCondition
  let body ← statement
  return .loop condition body

def ifStatement (fuel : Nat) (statement : Reading Stmt) : Reading Stmt := do
  let _ ← consume .leftParen .parenAfterIf
  let condition ← expression fuel
  let _ ← consume .rightParen .parenAfterIfCondition
  let yes ← statement
  if ← accept [.elseWord] then
    let no ← statement
    return .conditional condition yes (some no)
  else return .conditional condition yes none

def forInitializer (fuel : Nat) : Reading (Option Stmt) := do
  if ← accept [.semicolon] then return none
  if ← accept [.varWord] then return some (← varDecl fuel)
  return some (← expressionStatement fuel)

def forStatement (fuel : Nat) (statement : Reading Stmt) : Reading Stmt := do
  let _ ← consume .leftParen .parenAfterFor
  let initializer ← forInitializer fuel
  let condition ← optional fuel .semicolon
  let _ ← consume .semicolon .semicolonAfterCondition
  let increment ← optional fuel .rightParen
  let _ ← consume .rightParen .parenAfterClauses
  let body ← statement
  return forLoop initializer condition increment body

def declarations (stops : Reading Bool) (declaration : Reading (Option Stmt)) :
    Nat → Reading (List Stmt)
  | 0 => exhausted
  | fuel + 1 => do
    if ← stops then return []
    let first ← declaration
    let others ← declarations stops declaration fuel
    return first.toList ++ others

def block (fuel : Nat) (declaration : Reading (Option Stmt)) : Reading (List Stmt) := do
  let closes : Reading Bool := do
    if ← check .rightBrace then return true
    atEnd
  let body ← declarations closes declaration fuel
  let _ ← consume .rightBrace .braceAfterBlock
  return body

def parameters (fuel : Nat) : Reading (List Token) := do
  if ← check .rightParen then return []
  else items (consume .identifier .parameterName) .tooManyParameters fuel 0

def funDecl (fuel : Nat) (declaration : Reading (Option Stmt)) : Reading Stmt := do
  let name ← consume .identifier .functionName
  let _ ← consume .leftParen .parenAfterFunctionName
  let params ← parameters fuel
  let _ ← consume .rightParen .parenAfterParameters
  let _ ← consume .leftBrace .braceBeforeBody
  let body ← block fuel declaration
  return .funDecl name params body

def statementWith (fuel : Nat) (statement : Reading Stmt) (declaration : Reading (Option Stmt)) :
    Reading Stmt := do
  if ← accept [.forWord] then forStatement fuel statement
  else if ← accept [.ifWord] then ifStatement fuel statement
  else if ← accept [.printWord] then printStatement fuel
  else if ← accept [.returnWord] then returnStatement fuel
  else if ← accept [.whileWord] then whileStatement fuel statement
  else if ← accept [.leftBrace] then return .block (← block fuel declaration)
  else expressionStatement fuel

def declarationWith (fuel : Nat) (statement : Reading Stmt) (declaration : Reading (Option Stmt)) :
    Reading Stmt := do
  if ← accept [.funWord] then funDecl fuel declaration
  else if ← accept [.varWord] then varDecl fuel
  else statement

mutual

def statement : Nat → Reading Stmt
  | 0 => exhausted
  | fuel + 1 => statementWith fuel (statement fuel) (declaration fuel)

def declaration : Nat → Reading (Option Stmt)
  | 0 => exhausted
  | fuel + 1 =>
    spanned (attempt (declarationWith fuel (statement fuel) (declaration fuel)) synchronize)

end

def program (fuel : Nat) : Reading (List Stmt) := declarations atEnd (declaration fuel) fuel

def phrase (fuel : Nat) : Reading (Option Expr) := attempt (expression fuel) (pure ())

end Lox.Syntax.Cursor.Reading
