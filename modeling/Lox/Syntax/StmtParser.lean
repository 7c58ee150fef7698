import Lox.Syntax.ExprParser

/-! Reading statements.

Declarations stand at the top and in blocks, statements also behind `if`,
`else`, `while` and `for`. A declaration that does not parse is left out:
reading goes on behind the next semicolon or before the next word that begins a
statement, but always at least one token further on.
-/

set_option autoImplicit false

namespace Lox.Syntax

/-- A `for` loop as a `while` loop. The increment follows the body in a block,
and the initializer shares a block with the loop; a clause that is absent adds
no block, and an absent condition is true. -/
def forLoop (initializer : Option Stmt) (condition increment : Option Expr) (body : Stmt) : Stmt :=
  let step := match increment with
    | none => body
    | some increment => .block [body, .expression increment]
  let loop := Stmt.loop (condition.getD (.literal (.bool true))) step
  match initializer with
  | none => loop
  | some initializer => .block [initializer, loop]

namespace StmtParser

def starters : List Token.Kind :=
  [.classWord, .funWord, .varWord, .forWord, .ifWord, .whileWord, .printWord, .returnWord]

/-- Drop tokens up to a boundary, `previous` being the last one dropped. -/
def resumeAfter (previous : Token) : List Token → List Token
  | [] => []
  | token :: rest =>
    if previous.kind = .semicolon ∨ token.kind ∈ starters then token :: rest
    else resumeAfter token rest

/-- Drop one token, then all up to a boundary. -/
def resume : List Token → List Token
  | [] => []
  | token :: rest => resumeAfter token rest

def recovering (parser : Parser Stmt) : Parser (Option Stmt) := fun tokens =>
  match parser tokens with
  | .ok value rest errors => .ok (some value) rest errors
  | .stopped rest errors last => .ok none (resume rest) (errors ++ [last])
  | .exhausted => .exhausted

def closedBy (fuel : Nat) (kind : Token.Kind) (cause : SyntaxError.Cause) : Parser Expr := do
  let value ← ExprParser.expression fuel
  let _ ← Parser.expect kind cause
  pure value

def expressionStatement (fuel : Nat) : Parser Stmt := do
  return .expression (← closedBy fuel .semicolon .semicolonAfterExpression)

/-- An expression, unless the token that ends its clause comes first. -/
def optional (fuel : Nat) (finish : Token.Kind) : Parser (Option Expr) := do
  if ← Parser.nextIs finish then pure none
  else some <$> ExprParser.expression fuel

def varDecl (fuel : Nat) : Parser Stmt := do
  let name ← Parser.expect .identifier .variableName
  let initializer ← (do
    match ← Parser.accept? [.equal] with
    | none => pure none
    | some _ => some <$> ExprParser.expression fuel : Parser (Option Expr))
  let _ ← Parser.expect .semicolon .semicolonAfterVariable
  pure (.varDecl name initializer)

def printStatement (fuel : Nat) : Parser Stmt := do
  return .print (← closedBy fuel .semicolon .semicolonAfterValue)

def returnStatement (fuel : Nat) (keyword : Token) : Parser Stmt := do
  let value ← optional fuel .semicolon
  let _ ← Parser.expect .semicolon .semicolonAfterReturn
  pure (.ret keyword value)

def whileStatement (fuel : Nat) (statement : Parser Stmt) : Parser Stmt := do
  let _ ← Parser.expect .leftParen .parenAfterWhile
  let condition ← closedBy fuel .rightParen .parenAfterCondition
  let body ← statement
  pure (.loop condition body)

/-- An `else` belongs to the nearest `if`. -/
def ifStatement (fuel : Nat) (statement : Parser Stmt) : Parser Stmt := do
  let _ ← Parser.expect .leftParen .parenAfterIf
  let condition ← closedBy fuel .rightParen .parenAfterIfCondition
  let yes ← statement
  match ← Parser.accept? [.elseWord] with
  | none => pure (.conditional condition yes none)
  | some _ =>
    let no ← statement
    pure (.conditional condition yes (some no))

def forInitializer (fuel : Nat) : Parser (Option Stmt) := do
  match ← Parser.accept? [.semicolon, .varWord] with
  | none => some <$> expressionStatement fuel
  | some token => if token.kind = .semicolon then pure none else some <$> varDecl fuel

def forStatement (fuel : Nat) (statement : Parser Stmt) : Parser Stmt := do
  let _ ← Parser.expect .leftParen .parenAfterFor
  let initializer ← forInitializer fuel
  let condition ← optional fuel .semicolon
  let _ ← Parser.expect .semicolon .semicolonAfterCondition
  let increment ← optional fuel .rightParen
  let _ ← Parser.expect .rightParen .parenAfterClauses
  let body ← statement
  pure (forLoop initializer condition increment body)

def declarations (declaration : Parser (Option Stmt)) (closing : List Token.Kind) :
    Nat → Parser (List Stmt)
  | 0 => .exhausted
  | fuel + 1 => fun tokens =>
    if tokens.head?.all (·.kind ∈ closing) then .ok [] tokens []
    else
      (declaration tokens).bind fun first rest =>
        (declarations declaration closing fuel rest).bind fun others rest =>
          .ok (first.toList ++ others) rest []

def block (fuel : Nat) (declaration : Parser (Option Stmt)) : Parser (List Stmt) := do
  let body ← declarations declaration [.rightBrace] fuel
  let _ ← Parser.expect .rightBrace .braceAfterBlock
  pure body

def parameters (fuel : Nat) : Parser (List Token) := do
  if ← Parser.nextIs .rightParen then pure []
  else
    let parameter := Parser.expect .identifier .parameterName
    Parser.separated parameter .tooManyParameters fuel ExprParser.maxArguments

def funDecl (fuel : Nat) (declaration : Parser (Option Stmt)) : Parser Stmt := do
  let name ← Parser.expect .identifier .functionName
  let _ ← Parser.expect .leftParen .parenAfterFunctionName
  let params ← parameters fuel
  let _ ← Parser.expect .rightParen .parenAfterParameters
  let _ ← Parser.expect .leftBrace .braceBeforeBody
  let body ← block fuel declaration
  pure (.funDecl name params body)

/-- A statement, given the parsers for the statements and declarations inside it. -/
def statementWith (fuel : Nat) (statement : Parser Stmt) (declaration : Parser (Option Stmt)) :
    Parser Stmt
  | [] => expressionStatement fuel []
  | token :: rest =>
    match token.kind with
    | .forWord => forStatement fuel statement rest
    | .ifWord => ifStatement fuel statement rest
    | .printWord => printStatement fuel rest
    | .returnWord => returnStatement fuel token rest
    | .whileWord => whileStatement fuel statement rest
    | .leftBrace => (Stmt.block <$> block fuel declaration) rest
    | _ => expressionStatement fuel (token :: rest)

def declarationWith (fuel : Nat) (statement : Parser Stmt) (declaration : Parser (Option Stmt)) :
    Parser Stmt
  | [] => statement []
  | token :: rest =>
    match token.kind with
    | .funWord => funDecl fuel declaration rest
    | .varWord => varDecl fuel rest
    | _ => statement (token :: rest)

mutual

def statement : Nat → Parser Stmt
  | 0 => .exhausted
  | fuel + 1 => statementWith fuel (statement fuel) (declaration fuel)

def declaration : Nat → Parser (Option Stmt)
  | 0 => .exhausted
  | fuel + 1 => recovering (declarationWith fuel (statement fuel) (declaration fuel))

end

end StmtParser

end Lox.Syntax
