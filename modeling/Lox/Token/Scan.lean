import Lox.Token.Piece
import Lox.Report

/-! The tokens of a whole text.

The text is cut into pieces from left to right. A token's line is one more than
the number of line feeds before its first character, and so is the line of a
fault.
-/

set_option autoImplicit false

namespace Lox.Token

inductive LexicalError.Cause where
  | unexpectedCharacter
  | unterminatedString
  deriving DecidableEq, Repr

def LexicalError.Cause.message : LexicalError.Cause → String
  | .unexpectedCharacter => "Unexpected character."
  | .unterminatedString => "Unterminated string."

structure LexicalError where
  line : Int
  cause : LexicalError.Cause
  deriving DecidableEq, Repr

def LexicalError.report (error : LexicalError) : Report :=
  .atLine error.line error.cause.message

/-- The tokens without the closing one, the line of the end, and the faults. -/
structure Scan where
  tokens : List Token
  lastLine : Int
  errors : List LexicalError
  deriving DecidableEq

namespace Scan

/-- Put the piece at the head of a text before what was scanned after it. -/
def cons (piece : Piece) (text : List Char) (line : Int) (scan : Scan) : Scan :=
  match piece with
  | .gap _ => scan
  | .token kind literal length =>
    let token := ⟨kind, String.ofList (text.take length), literal, line⟩
    { scan with tokens := token :: scan.tokens }
  | .unexpected => { scan with errors := ⟨line, .unexpectedCharacter⟩ :: scan.errors }
  | .unclosed _ => { scan with errors := ⟨line, .unterminatedString⟩ :: scan.errors }

/-- Scan a text whose first `pending` characters belong to a piece already taken. -/
def ofTextFrom (line : Int) (pending : Nat) : List Char → Scan
  | [] => ⟨[], line, []⟩
  | c :: rest =>
    let next := if c = '\n' then line + 1 else line
    match pending with
    | pending + 1 => ofTextFrom next pending rest
    | 0 =>
      let piece := Piece.ofHead c rest
      cons piece (c :: rest) line (ofTextFrom next (piece.length - 1) rest)

def ofText (text : List Char) : Scan := ofTextFrom 1 0 text

/-- All tokens, with the one that closes the text. -/
def closed (scan : Scan) : List Token := scan.tokens ++ [Token.finish scan.lastLine]

def reports (scan : Scan) : List Report := scan.errors.map LexicalError.report

end Scan

end Lox.Token
