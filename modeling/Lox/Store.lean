/-! Frames of names, each inside the one it was made in.

A frame keeps its names in the order of their first definition. The chain of a
frame leads from it outwards to the root; every look-up is a walk along it,
either to the nearest frame that has the name or to a given distance. A frame
is made after the one around it, so a chain is no longer than the number of its
first frame allows.
-/

set_option autoImplicit false

namespace Lox

variable {α : Type}

structure Frame (α : Type) where
  bindings : List (String × α)
  parent : Option Nat
  deriving Repr

namespace Frame

/-- Replace the value of a name in its place, or bind a new name at the end. -/
def bind (name : String) (value : α) : List (String × α) → List (String × α)
  | [] => [(name, value)]
  | (other, old) :: rest =>
    if other = name then (name, value) :: rest else (other, old) :: bind name value rest

def lookup (name : String) : List (String × α) → Option α
  | [] => none
  | (other, value) :: rest => if other = name then some value else lookup name rest

def get? (frame : Frame α) (name : String) : Option α := lookup name frame.bindings

def has (frame : Frame α) (name : String) : Bool := (frame.get? name).isSome

def put (frame : Frame α) (name : String) (value : α) : Frame α :=
  { frame with bindings := bind name value frame.bindings }

end Frame

structure Store (α : Type) where
  frames : Array (Frame α)
  deriving Repr

namespace Store

/-- What a walk to a given distance can miss. -/
inductive Fault where
  | missing (name : String)
  | noFrame
  deriving DecidableEq, Repr

/-- Where a number of steps outwards leads. -/
inductive Ancestor where
  | frame (id : Nat)
  | outside
  | beyond
  deriving DecidableEq, Repr

def empty : Store α := ⟨#[]⟩

def frame? (store : Store α) (id : Nat) : Option (Frame α) := store.frames[id]?

def next (store : Store α) : Nat := store.frames.size

def add (store : Store α) (parent : Option Nat) : Store α :=
  ⟨store.frames.push ⟨[], parent⟩⟩

def put (store : Store α) (id : Nat) (name : String) (value : α) : Store α :=
  ⟨store.frames.modify id (·.put name value)⟩

def chainWithin (store : Store α) : Nat → Nat → List Nat
  | 0, _ => []
  | steps + 1, id =>
    match store.frame? id with
    | none => []
    | some frame =>
      match frame.parent with
      | none => [id]
      | some parent => id :: chainWithin store steps parent

def chain (store : Store α) (id : Nat) : List Nat := store.chainWithin (id + 1) id

def binds (store : Store α) (name : String) (id : Nat) : Bool :=
  (store.frame? id).any (·.has name)

/-- The nearest frame that binds a name. -/
def holder? (store : Store α) (id : Nat) (name : String) : Option Nat :=
  (store.chain id).find? (store.binds name)

def contains (store : Store α) (id : Nat) (name : String) : Bool :=
  (store.holder? id name).isSome

def value? (store : Store α) (id : Nat) (name : String) : Option α :=
  (store.frame? id).bind (·.get? name)

def get? (store : Store α) (id : Nat) (name : String) : Option α :=
  (store.holder? id name).bind fun holder => store.value? holder name

def assign? (store : Store α) (id : Nat) (name : String) (value : α) : Option (Store α) :=
  (store.holder? id name).map fun holder => store.put holder name value

def ancestor (store : Store α) (id distance : Nat) : Ancestor :=
  let chain := store.chain id
  match chain[distance]? with
  | some found => .frame found
  | none => if distance = chain.length then .outside else .beyond

/-- The frame at a distance, which must bind a name. -/
def locate (store : Store α) (id distance : Nat) (name : String) : Except Fault Nat :=
  match (store.chain id)[distance]? with
  | none => .error .noFrame
  | some found => if store.binds name found then .ok found else .error (.missing name)

/-- The value of a name in the frame at a distance, which must bind it. -/
def getAt (store : Store α) (id distance : Nat) (name : String) : Except Fault α :=
  match (store.chain id)[distance]? with
  | none => .error .noFrame
  | some found =>
    match store.value? found name with
    | none => .error (.missing name)
    | some value => .ok value

/-- Replace the value of a name in the frame at a distance, which must bind it. -/
def assignAt (store : Store α) (id distance : Nat) (name : String) (value : α) :
    Except Fault (Store α) :=
  (store.locate id distance name).map fun found => store.put found name value

/-- The names and values of one frame, in the order of first definition. -/
def bindings (store : Store α) (id : Nat) : List (String × α) :=
  match store.frame? id with
  | none => []
  | some frame => frame.bindings

def describe? (store : Store α) (id : Nat) : Option String :=
  match store.frame? id with
  | some ⟨bindings, none⟩ =>
    some ("<Environment values=[" ++ ", ".intercalate (bindings.map (·.1)) ++ "]>")
  | _ => none

end Store

end Lox
