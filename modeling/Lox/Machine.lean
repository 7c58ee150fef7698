import Lox.Value
import Lox.Failure

/-! The state of a running program and the outcome of a step.

Frame 0 holds the global names. An outcome hands on the state however the step
ended, be it only because the fuel ran out.
-/

set_option autoImplicit false

namespace Lox

/-- How names without a distance are looked up: among the globals, or along the
chain of the current frame. -/
inductive Lookup where
  | lexical
  | dynamic
  deriving DecidableEq, Repr

/-- What a run is given from outside: the limit on nested calls, the look-up of
names, and the readings of the clock. -/
structure Rules where
  limit : Option Int
  lookup : Lookup
  clock : Nat → Number

structure Machine where
  store : Store Value
  frame : Nat
  depth : Nat
  printed : Array String
  closures : Nat
  readings : Nat

namespace Machine

def globals : Nat := 0

def initial : Machine :=
  ⟨Store.empty.add none, globals, 0, #[], 0, 0⟩

def define (machine : Machine) (name : String) (value : Value) : Machine :=
  { machine with store := machine.store.put machine.frame name value }

def enter (machine : Machine) (parent : Nat) : Machine :=
  let frame := machine.store.next
  { machine with store := machine.store.add (some parent), frame := frame }

def backTo (machine : Machine) (frame : Nat) : Machine := { machine with frame := frame }

def endCall (machine : Machine) : Machine := { machine with depth := machine.depth - 1 }

def returnTo (machine : Machine) (frame depth : Nat) : Machine :=
  { machine with frame := frame, depth := depth }

def reset (machine : Machine) : Machine := machine.returnTo globals 0

def print (machine : Machine) (line : String) : Machine :=
  { machine with printed := machine.printed.push line }

end Machine

/-- How a statement ends when it does not fail, with values of some kind. -/
inductive CompletionIn (α : Type) where
  | normal
  | returned (value : α)

abbrev Completion := CompletionIn Value

/-- How a step ends, in a state of some kind. -/
inductive OutcomeIn (σ α : Type) where
  | done (value : α) (state : σ)
  | failed (failure : Failure) (state : σ)
  | exhausted {state : σ}

abbrev Outcome (α : Type) := OutcomeIn Machine α

namespace OutcomeIn

variable {σ α β : Type}

@[match_pattern] abbrev cut (state : σ) : OutcomeIn σ α := @exhausted σ α state

@[inline] def bind (outcome : OutcomeIn σ α) (next : α → σ → OutcomeIn σ β) : OutcomeIn σ β :=
  match outcome with
  | .done value state => next value state
  | .failed failure state => .failed failure state
  | .cut state => .cut state

@[inline] def mapState (outcome : OutcomeIn σ α) (change : σ → σ) : OutcomeIn σ α :=
  match outcome with
  | .done value state => .done value (change state)
  | .failed failure state => .failed failure (change state)
  | .cut state => .cut (change state)

@[inline] def ofExcept (result : Except Failure α) (state : σ) : OutcomeIn σ α :=
  match result with
  | .ok value => .done value state
  | .error failure => .failed failure state

end OutcomeIn

end Lox
