import Lox.Syntax.Tree

/-! Values of a running program.

A closure is a function declaration with the environment that was current where
it was declared, which is the number of a frame in a running program. Each
evaluation of a declaration makes a new closure, known by its number, so two
closures are equal only if they are the same one.
-/

set_option autoImplicit false

namespace Lox

/-- A closure over an environment of some kind. -/
structure ClosureIn (ε : Type) where
  id : Nat
  name : Token
  params : List Token
  body : List Stmt
  env : ε

abbrev Closure := ClosureIn Nat

/-- The functions that the host provides. -/
inductive Native where
  | clock
  deriving DecidableEq, Repr

def Native.name : Native → String
  | .clock => "clock"

def Native.arity : Native → Nat
  | .clock => 0

/-- A value whose closures have environments of some kind. -/
inductive ValueIn (ε : Type) where
  | literal (value : Literal)
  | closure (function : ClosureIn ε)
  | native (function : Native)

abbrev Value := ValueIn Nat

namespace ValueIn

variable {ε : Type}

def nil : ValueIn ε := .literal .nil

def bool (value : Bool) : ValueIn ε := .literal (.bool value)

def number (value : Number) : ValueIn ε := .literal (.number value)

def string (value : String) : ValueIn ε := .literal (.string value)

def truthy : ValueIn ε → Bool
  | .literal value => value.truthy
  | .closure _ | .native _ => true

/-- Equality never converts between kinds. -/
def equal : ValueIn ε → ValueIn ε → Bool
  | .literal left, .literal right => left = right
  | .closure left, .closure right => left.id = right.id
  | .native left, .native right => left = right
  | _, _ => false

def display : ValueIn ε → String
  | .literal value => String.ofList value.display
  | .closure function => "<fn " ++ function.name.lexeme ++ ">"
  | .native _ => "<native fn>"

def arity? : ValueIn ε → Option Nat
  | .literal _ => none
  | .closure function => some function.params.length
  | .native function => some function.arity

def signature? : ValueIn ε → Option String
  | .literal _ => none
  | .closure function =>
    some ("<LoxFunction " ++ function.name.lexeme ++ "/" ++ toString function.params.length ++ ">")
  | .native function =>
    some ("<NativeFunction " ++ function.name ++ "/" ++ toString function.arity ++ ">")

end ValueIn

end Lox
