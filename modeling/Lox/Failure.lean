import Lox.Report
import Lox.Store

/-! The ways in which a program can fail while it runs.

A runtime error is the program's own and is reported. A fault is none of its
doing: a resolved name is missing from its frame, or a tree has a shape that no
program text gives.
-/

set_option autoImplicit false

namespace Lox

inductive RuntimeError.Cause where
  | undefined (name : String)
  | numberOperand
  | numberOperands
  | numberOrStringOperands
  | notCallable
  | arity (expected actual : Nat)
  | stackOverflow
  deriving DecidableEq, Repr

def RuntimeError.Cause.message : RuntimeError.Cause → String
  | .undefined name => "Undefined variable '" ++ name ++ "'."
  | .numberOperand => "Operand must be a number."
  | .numberOperands => "Operands must be numbers."
  | .numberOrStringOperands => "Operands must be two numbers or two strings."
  | .notCallable => "Can only call functions."
  | .arity expected actual =>
    "Expected " ++ toString expected ++ " arguments but got " ++ toString actual ++ "."
  | .stackOverflow => "Stack overflow."

structure RuntimeError where
  line : Int
  cause : RuntimeError.Cause
  deriving DecidableEq, Repr

def RuntimeError.report (error : RuntimeError) : Report :=
  .runtime error.line error.cause.message

/-- The shapes that no program text gives, with the name of what was found. -/
inductive Malformed where
  | statement (kind : String)
  | expression (kind : String)
  | unary (lexeme : String)
  | binary (lexeme : String)
  deriving DecidableEq, Repr

def Malformed.message : Malformed → String
  | .statement kind => "Unknown statement node: " ++ kind
  | .expression kind => "Unknown expression node: " ++ kind
  | .unary lexeme => "Unknown unary operator: " ++ lexeme
  | .binary lexeme => "Unknown binary operator: " ++ lexeme

inductive Fault where
  | store (fault : Store.Fault)
  | malformed (shape : Malformed)
  deriving DecidableEq, Repr

def Fault.message : Fault → String
  | .store (.missing name) => "Unbound name in its frame: " ++ name
  | .store .noFrame => "No frame at this distance"
  | .malformed shape => shape.message

inductive Failure where
  | runtime (error : RuntimeError)
  | fault (fault : Fault)
  deriving DecidableEq, Repr

end Lox
