import Lox.Literal

/-! Tokens: the words of a program with their kind, value and line. -/

set_option autoImplicit false

namespace Lox

inductive Token.Kind where
  | leftParen | rightParen | leftBrace | rightBrace
  | comma | dot | minus | plus | semicolon | slash | star
  | bang | bangEqual | equal | equalEqual
  | greater | greaterEqual | less | lessEqual
  | identifier | string | number
  | andWord | classWord | elseWord | falseWord | funWord | forWord | ifWord | nilWord
  | orWord | printWord | returnWord | superWord | thisWord | trueWord | varWord | whileWord
  | endOfInput
  deriving DecidableEq, Repr

namespace Token.Kind

def all : List Kind := [
  .leftParen, .rightParen, .leftBrace, .rightBrace,
  .comma, .dot, .minus, .plus, .semicolon, .slash, .star,
  .bang, .bangEqual, .equal, .equalEqual,
  .greater, .greaterEqual, .less, .lessEqual,
  .identifier, .string, .number,
  .andWord, .classWord, .elseWord, .falseWord, .funWord, .forWord, .ifWord, .nilWord,
  .orWord, .printWord, .returnWord, .superWord, .thisWord, .trueWord, .varWord, .whileWord,
  .endOfInput]

def name : Kind → String
  | .leftParen => "LEFT_PAREN"
  | .rightParen => "RIGHT_PAREN"
  | .leftBrace => "LEFT_BRACE"
  | .rightBrace => "RIGHT_BRACE"
  | .comma => "COMMA"
  | .dot => "DOT"
  | .minus => "MINUS"
  | .plus => "PLUS"
  | .semicolon => "SEMICOLON"
  | .slash => "SLASH"
  | .star => "STAR"
  | .bang => "BANG"
  | .bangEqual => "BANG_EQUAL"
  | .equal => "EQUAL"
  | .equalEqual => "EQUAL_EQUAL"
  | .greater => "GREATER"
  | .greaterEqual => "GREATER_EQUAL"
  | .less => "LESS"
  | .lessEqual => "LESS_EQUAL"
  | .identifier => "IDENTIFIER"
  | .string => "STRING"
  | .number => "NUMBER"
  | .andWord => "AND"
  | .classWord => "CLASS"
  | .elseWord => "ELSE"
  | .falseWord => "FALSE"
  | .funWord => "FUN"
  | .forWord => "FOR"
  | .ifWord => "IF"
  | .nilWord => "NIL"
  | .orWord => "OR"
  | .printWord => "PRINT"
  | .returnWord => "RETURN"
  | .superWord => "SUPER"
  | .thisWord => "THIS"
  | .trueWord => "TRUE"
  | .varWord => "VAR"
  | .whileWord => "WHILE"
  | .endOfInput => "EOF"

def ofName? (name : String) : Option Kind :=
  all.find? (·.name = name)

/-- The reserved words. Three of them have no grammar. -/
def reserved : List (String × Kind) := [
  ("and", .andWord), ("class", .classWord), ("else", .elseWord), ("false", .falseWord),
  ("for", .forWord), ("fun", .funWord), ("if", .ifWord), ("nil", .nilWord),
  ("or", .orWord), ("print", .printWord), ("return", .returnWord), ("super", .superWord),
  ("this", .thisWord), ("true", .trueWord), ("var", .varWord), ("while", .whileWord)]

/-- A word that is not reserved is an identifier. -/
def ofWord (word : String) : Kind :=
  (reserved.lookup word).getD .identifier

end Token.Kind

/-- The line is a label for reports; a token made by hand may carry any. -/
structure Token where
  kind : Token.Kind
  lexeme : String
  literal : Option Literal
  line : Int
  deriving DecidableEq

namespace Token

def finish (line : Int) : Token := ⟨.endOfInput, "", none, line⟩

def literalText (token : Token) : List Char :=
  match token.literal with
  | none | some .nil => "None".toList
  | some (.bool true) => "True".toList
  | some (.bool false) => "False".toList
  | some (.number value) => Number.Layout.plain.write value
  | some (.string value) => value.toList

def text (token : Token) : String :=
  String.ofList (token.kind.name.toList ++ ' ' :: token.lexeme.toList ++ ' ' :: token.literalText)

end Token

end Lox
