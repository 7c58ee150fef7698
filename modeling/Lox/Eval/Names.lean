import Lox.Machine

/-! Reading and assigning names.

A name with a distance lives in exactly the frame at that distance. Any other
is global, or under dynamic look-up the nearest on the chain.
-/

set_option autoImplicit false

namespace Lox.Machine

/-- The frame where the search for a name without a distance begins. -/
def searchFrame (machine : Machine) (lookup : Lookup) : Nat :=
  match lookup with
  | .lexical => globals
  | .dynamic => machine.frame

def undefined (name : Token) : Failure :=
  .runtime ⟨name.line, .undefined name.lexeme⟩

def read (machine : Machine) (lookup : Lookup) (name : Token) (distance : Option Nat) :
    Except Failure Value :=
  match distance with
  | some distance =>
    match machine.store.getAt machine.frame distance name.lexeme with
    | .ok value => .ok value
    | .error fault => .error (.fault (.store fault))
  | none =>
    match machine.store.get? (machine.searchFrame lookup) name.lexeme with
    | some value => .ok value
    | none => .error (undefined name)

def locate (machine : Machine) (lookup : Lookup) (name : Token) (distance : Option Nat) :
    Except Failure Nat :=
  match distance with
  | some distance =>
    match machine.store.locate machine.frame distance name.lexeme with
    | .ok found => .ok found
    | .error fault => .error (.fault (.store fault))
  | none =>
    match machine.store.holder? (machine.searchFrame lookup) name.lexeme with
    | some found => .ok found
    | none => .error (undefined name)

/-- Replace the value of a name in a frame that binds it. -/
def replace (machine : Machine) (found : Nat) (name : String) (value : Value) : Machine :=
  { machine with store := machine.store.put found name value }

/-- Bind parameters to arguments, in order, in the current frame. -/
def defineAll (machine : Machine) (params : List Token) (arguments : List Value) : Machine :=
  (params.zip arguments).foldl (fun machine pair => machine.define pair.1.lexeme pair.2) machine

/-- Make a closure of a declaration and bind it to its name in the current frame. -/
def defineClosure (machine : Machine) (name : Token) (params : List Token) (body : List Stmt) :
    Machine :=
  let closure : Value := .closure ⟨machine.closures, name, params, body, machine.frame⟩
  { machine.define name.lexeme closure with closures := machine.closures + 1 }

end Lox.Machine
