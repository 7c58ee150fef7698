import Lox.Report

/-! Syntax errors.

Each names what was expected or exceeded, and the token at which that shows; an
error behind the last token has none.
-/

set_option autoImplicit false

namespace Lox.Syntax

inductive SyntaxError.Cause where
  | functionName
  | parenAfterFunctionName
  | parameterName
  | parenAfterParameters
  | braceBeforeBody
  | variableName
  | semicolonAfterVariable
  | parenAfterFor
  | semicolonAfterCondition
  | parenAfterClauses
  | parenAfterIf
  | parenAfterIfCondition
  | semicolonAfterValue
  | semicolonAfterReturn
  | parenAfterWhile
  | parenAfterCondition
  | braceAfterBlock
  | semicolonAfterExpression
  | parenAfterArguments
  | parenAfterExpression
  | expression
  | assignmentTarget
  | tooManyParameters
  | tooManyArguments
  deriving DecidableEq, Repr

def SyntaxError.Cause.message : SyntaxError.Cause → String
  | .functionName => "Expect function name."
  | .parenAfterFunctionName => "Expect '(' after function name."
  | .parameterName => "Expect parameter name."
  | .parenAfterParameters => "Expect ')' after parameters."
  | .braceBeforeBody => "Expect '\x7b' before function body."
  | .variableName => "Expect variable name."
  | .semicolonAfterVariable => "Expect ';' after variable declaration."
  | .parenAfterFor => "Expect '(' after 'for'."
  | .semicolonAfterCondition => "Expect ';' after loop condition."
  | .parenAfterClauses => "Expect ')' after for clauses."
  | .parenAfterIf => "Expect '(' after 'if'."
  | .parenAfterIfCondition => "Expect ')' after if condition."
  | .semicolonAfterValue => "Expect ';' after value."
  | .semicolonAfterReturn => "Expect ';' after return value."
  | .parenAfterWhile => "Expect '(' after 'while'."
  | .parenAfterCondition => "Expect ')' after condition."
  | .braceAfterBlock => "Expect '\x7d' after block."
  | .semicolonAfterExpression => "Expect ';' after expression."
  | .parenAfterArguments => "Expect ')' after arguments."
  | .parenAfterExpression => "Expect ')' after expression."
  | .expression => "Expect expression."
  | .assignmentTarget => "Invalid assignment target."
  | .tooManyParameters => "Can't have more than 255 parameters."
  | .tooManyArguments => "Can't have more than 255 arguments."

/-- An error at a token, or at the end of the tokens. -/
structure SyntaxError where
  token : Option Token
  cause : SyntaxError.Cause
  deriving DecidableEq

def SyntaxError.report (lastLine : Int) (error : SyntaxError) : Report :=
  .atToken (error.token.getD (Token.finish lastLine)) error.cause.message

end Lox.Syntax
