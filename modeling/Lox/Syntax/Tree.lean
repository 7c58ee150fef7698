import Lox.Syntax.Node

/-! Expressions and statements.

A name is used either for reading or for assigning. Its distance is the number
of scopes between the use and the scope that binds it; a use without one refers
to a global name, or is looked up dynamically. A raw node out of its place is
kept as it is: it is an error only when it is reached.
-/

set_option autoImplicit false

namespace Lox

inductive Expr where
  | literal (value : Literal)
  | grouping (inner : Expr)
  | unary (operator : Token) (operand : Expr)
  | binary (left : Expr) (operator : Token) (right : Expr)
  | logical (left : Expr) (operator : Token) (right : Expr)
  | reference (name : Token) (distance : Option Nat)
  | assign (name : Token) (value : Expr) (distance : Option Nat)
  | call (callee : Expr) (paren : Token) (arguments : List Expr)
  | misplaced (node : Node)

inductive Stmt where
  | expression (inner : Expr)
  | print (inner : Expr)
  | varDecl (name : Token) (initializer : Option Expr)
  | block (body : List Stmt)
  | conditional (condition : Expr) (yes : Stmt) (no : Option Stmt)
  | loop (condition : Expr) (body : Stmt)
  | funDecl (name : Token) (params : List Token) (body : List Stmt)
  | ret (keyword : Token) (value : Option Expr)
  | misplaced (node : Node)

mutual

def Node.toExpr : Node → Expr
  | .literal value => .literal value
  | .grouping inner => .grouping inner.toExpr
  | .unary operator operand => .unary operator operand.toExpr
  | .binary left operator right => .binary left.toExpr operator right.toExpr
  | .logical left operator right => .logical left.toExpr operator right.toExpr
  | .reference name => .reference name none
  | .assign name value => .assign name value.toExpr none
  | .call callee paren arguments => .call callee.toExpr paren (toExprs arguments)
  | node => .misplaced node

def Node.toExprs : List Node → List Expr
  | [] => []
  | node :: nodes => node.toExpr :: toExprs nodes

end

mutual

def Node.toStmt : Node → Stmt
  | .expression inner => .expression inner.toExpr
  | .print inner => .print inner.toExpr
  | .varDecl name initializer => .varDecl name (initializer.map Node.toExpr)
  | .block body => .block (toStmts body)
  | .conditional condition yes none => .conditional condition.toExpr yes.toStmt none
  | .conditional condition yes (some no) =>
    .conditional condition.toExpr yes.toStmt (some no.toStmt)
  | .loop condition body => .loop condition.toExpr body.toStmt
  | .funDecl name params body => .funDecl name params (toStmts body)
  | .ret keyword value => .ret keyword (value.map Node.toExpr)
  | node => .misplaced node

def Node.toStmts : List Node → List Stmt
  | [] => []
  | node :: nodes => node.toStmt :: toStmts nodes

end

mutual

def Expr.toNode : Expr → Node
  | .literal value => .literal value
  | .grouping inner => .grouping inner.toNode
  | .unary operator operand => .unary operator operand.toNode
  | .binary left operator right => .binary left.toNode operator right.toNode
  | .logical left operator right => .logical left.toNode operator right.toNode
  | .reference name _ => .reference name
  | .assign name value _ => .assign name value.toNode
  | .call callee paren arguments => .call callee.toNode paren (toNodes arguments)
  | .misplaced node => node

def Expr.toNodes : List Expr → List Node
  | [] => []
  | expr :: exprs => expr.toNode :: toNodes exprs

end

mutual

def Stmt.toNode : Stmt → Node
  | .expression inner => .expression inner.toNode
  | .print inner => .print inner.toNode
  | .varDecl name initializer => .varDecl name (initializer.map Expr.toNode)
  | .block body => .block (toNodes body)
  | .conditional condition yes none => .conditional condition.toNode yes.toNode none
  | .conditional condition yes (some no) =>
    .conditional condition.toNode yes.toNode (some no.toNode)
  | .loop condition body => .loop condition.toNode body.toNode
  | .funDecl name params body => .funDecl name params (toNodes body)
  | .ret keyword value => .ret keyword (value.map Expr.toNode)
  | .misplaced node => node

def Stmt.toNodes : List Stmt → List Node
  | [] => []
  | stmt :: stmts => stmt.toNode :: toNodes stmts

end

def Expr.form (expr : Expr) : String := expr.toNode.form

def Stmt.form (stmt : Stmt) : String := stmt.toNode.form

end Lox
