import Lox.Token.Basic

/-! Raw trees, in which any kind of node may stand anywhere, and their written form.

A node is written between parentheses: a head, then the parts, each after a
blank.
-/

set_option autoImplicit false

namespace Lox

inductive Node where
  | assign (name : Token) (value : Node)
  | binary (left : Node) (operator : Token) (right : Node)
  | call (callee : Node) (paren : Token) (arguments : List Node)
  | grouping (inner : Node)
  | literal (value : Literal)
  | logical (left : Node) (operator : Token) (right : Node)
  | unary (operator : Token) (operand : Node)
  | reference (name : Token)
  | block (body : List Node)
  | expression (inner : Node)
  | funDecl (name : Token) (params : List Token) (body : List Node)
  | conditional (condition : Node) (yes : Node) (no : Option Node)
  | print (inner : Node)
  | ret (keyword : Token) (value : Option Node)
  | varDecl (name : Token) (initializer : Option Node)
  | loop (condition : Node) (body : Node)

namespace Node

def kindName : Node → String
  | .assign .. => "Assign"
  | .binary .. => "Binary"
  | .call .. => "Call"
  | .grouping .. => "Grouping"
  | .literal .. => "Literal"
  | .logical .. => "Logical"
  | .unary .. => "Unary"
  | .reference .. => "Variable"
  | .block .. => "Block"
  | .expression .. => "Expression"
  | .funDecl .. => "Function"
  | .conditional .. => "If"
  | .print .. => "Print"
  | .ret .. => "Return"
  | .varDecl .. => "Var"
  | .loop .. => "While"

def parenthesized (head : List Char) (parts : List (List Char)) : List Char :=
  '(' :: head ++ parts.flatMap (' ' :: ·) ++ [')']

def paramList : List Token → List Char
  | [] => ['(', ')']
  | first :: others =>
    '(' :: first.lexeme.toList ++ others.flatMap (fun param => ' ' :: param.lexeme.toList) ++ [')']

mutual

def write : Node → List Char
  | .assign name value => parenthesized ['='] [name.lexeme.toList, write value]
  | .binary left operator right | .logical left operator right =>
    parenthesized operator.lexeme.toList [write left, write right]
  | .call callee _ arguments => parenthesized "call".toList (write callee :: writeAll arguments)
  | .grouping inner => parenthesized "group".toList [write inner]
  | .literal value => value.form
  | .unary operator operand => parenthesized operator.lexeme.toList [write operand]
  | .reference name => parenthesized "var".toList [name.lexeme.toList]
  | .block body => parenthesized "block".toList (writeAll body)
  | .expression inner => parenthesized [';'] [write inner]
  | .funDecl name params body =>
    parenthesized "fun".toList (name.lexeme.toList :: paramList params :: writeAll body)
  | .conditional condition yes none => parenthesized "if".toList [write condition, write yes]
  | .conditional condition yes (some no) =>
    parenthesized "if".toList [write condition, write yes, write no]
  | .print inner => parenthesized "print".toList [write inner]
  | .ret _ none => parenthesized "return".toList []
  | .ret _ (some value) => parenthesized "return".toList [write value]
  | .varDecl name none => parenthesized "var".toList [name.lexeme.toList]
  | .varDecl name (some value) =>
    parenthesized "var".toList [name.lexeme.toList, ['='], write value]
  | .loop condition body => parenthesized "while".toList [write condition, write body]

def writeAll : List Node → List (List Char)
  | [] => []
  | node :: nodes => write node :: writeAll nodes

end

def form (node : Node) : String := String.ofList node.write

end Node

end Lox
