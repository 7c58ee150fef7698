import Lox.Token.Basic

/-! The piece of text at the head of a program.

A piece is a gap (one blank or a comment), a token, a character that begins
none, or a string that is never closed. A token is always the longest one that
the text admits at its place.
-/

set_option autoImplicit false

namespace Lox.Token

inductive Piece where
  | gap (length : Nat)
  | token (kind : Kind) (literal : Option Literal) (length : Nat)
  | unexpected
  | unclosed (length : Nat)
  deriving DecidableEq

namespace Piece

def length : Piece → Nat
  | .gap length | .token _ _ length | .unclosed length => length
  | .unexpected => 1

def isDigit (c : Char) : Bool := '0' ≤ c && c ≤ '9'

def isLetter (c : Char) : Bool :=
  ('a' ≤ c && c ≤ 'z') || ('A' ≤ c && c ≤ 'Z') || c == '_'

def isWordPart (c : Char) : Bool := isLetter c || isDigit c

def single? : Char → Option Kind
  | '(' => some .leftParen
  | ')' => some .rightParen
  | '{' => some .leftBrace
  | '}' => some .rightBrace
  | ',' => some .comma
  | '.' => some .dot
  | '-' => some .minus
  | '+' => some .plus
  | ';' => some .semicolon
  | '*' => some .star
  | _ => none

/-- The kinds of an operator without and with an equal sign after it. -/
def paired? : Char → Option (Kind × Kind)
  | '!' => some (.bang, .bangEqual)
  | '=' => some (.equal, .equalEqual)
  | '<' => some (.less, .lessEqual)
  | '>' => some (.greater, .greaterEqual)
  | _ => none

def ofPair (kinds : Kind × Kind) : List Char → Piece
  | '=' :: _ => .token kinds.2 none 2
  | _ => .token kinds.1 none 1

/-- Two slashes begin a comment, which ends before the line does. -/
def ofSlash : List Char → Piece
  | '/' :: rest => .gap (2 + (rest.takeWhile (· ≠ '\n')).length)
  | _ => .token .slash none 1

def ofQuote (text : List Char) : Piece :=
  let body := text.takeWhile (· ≠ '"')
  if body.length = text.length then .unclosed (1 + body.length)
  else .token .string (some (.string (String.ofList body))) (body.length + 2)

/-- A point belongs to the number only when a digit follows it. -/
def fraction : List Char → List Char
  | '.' :: rest => rest.takeWhile isDigit
  | _ => []

def ofNumber (text : List Char) : Piece :=
  let whole := text.takeWhile isDigit
  let fraction := fraction (text.dropWhile isDigit)
  let length := if fraction.isEmpty then whole.length else whole.length + 1 + fraction.length
  .token .number (some (.number (Number.ofDigits whole fraction))) length

def ofWord (text : List Char) : Piece :=
  let word := text.takeWhile isWordPart
  .token (Kind.ofWord (String.ofList word)) none word.length

def ofHead (c : Char) (rest : List Char) : Piece :=
  match single? c, paired? c with
  | some kind, _ => .token kind none 1
  | _, some kinds => ofPair kinds rest
  | _, _ =>
    if c = '/' then ofSlash rest
    else if c = ' ' ∨ c = '\r' ∨ c = '\t' ∨ c = '\n' then .gap 1
    else if c = '"' then ofQuote rest
    else if isDigit c then ofNumber (c :: rest)
    else if isLetter c then ofWord (c :: rest)
    else .unexpected

end Piece

end Lox.Token
