import Lox.Syntax.StmtParser
import Lox.Token.Scan

/-! Programs read from tokens and from text.

The fuel of each reading exceeds what its tokens can use: an expression inside
another stands behind a token of its own, and so does a statement inside
another, which takes two steps when it is also a declaration.
-/

set_option autoImplicit false

namespace Lox

open Syntax

/-- The declarations that parsed, and the errors of the others. -/
structure Program where
  statements : List Stmt
  errors : List SyntaxError

def Program.ofTokens (tokens : List Token) : Program :=
  let fuel := 2 * tokens.length + 3
  match StmtParser.declarations (StmtParser.declaration fuel) [] fuel tokens with
  | .ok statements _ errors => ⟨statements, errors⟩
  | .stopped _ errors last => ⟨[], errors ++ [last]⟩
  | .exhausted => ⟨[], []⟩

/-- An expression read from the front of a list of tokens, if one was there, and
the tokens it left. -/
structure Phrase where
  expr : Option Expr
  rest : List Token
  errors : List SyntaxError

def Phrase.ofTokens (tokens : List Token) : Phrase :=
  match ExprParser.expression (tokens.length + 1) tokens with
  | .ok expr rest errors => ⟨some expr, rest, errors⟩
  | .stopped rest errors last => ⟨none, rest, errors ++ [last]⟩
  | .exhausted => ⟨none, tokens, []⟩

structure Source where
  scan : Token.Scan
  program : Program

namespace Source

def ofText (text : List Char) : Source :=
  let scan := Token.Scan.ofText text
  ⟨scan, .ofTokens scan.tokens⟩

/-- Lexical reports come before those of the parser. -/
def reports (source : Source) : List Report :=
  source.scan.reports ++ source.program.errors.map (SyntaxError.report source.scan.lastLine)

end Source

end Lox
