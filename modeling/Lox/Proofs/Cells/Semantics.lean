import Lox.Eval.Basic

/-! A second meaning of programs, by environments that never change.

An environment is a stack of scopes from names to cells. A block and a call begin
with an empty scope and go back to the environment that they came from. A declaration
keeps the cell of a name that the innermost scope has, and any other name gets a fresh
cell, which only what follows can see. A closure keeps the environment in which it was
made. A name without a cell is global. Distances mean nothing here.
-/

set_option autoImplicit false

namespace Lox.Cells

abbrev Env := List (List (String × Nat))

abbrev Value := ValueIn Env

abbrev Completion := CompletionIn Value

namespace Env

def cell? (env : Env) (name : String) : Option Nat := env.findSome? (Frame.lookup name)

def declare (name : String) (fresh : Nat) : Env → Env
  | [] => []
  | scope :: outer =>
    match Frame.lookup name scope with
    | some _ => scope :: outer
    | none => ((name, fresh) :: scope) :: outer

variable {name : String} {fresh cell : Nat} {scope : List (String × Nat)} {outer : Env}

theorem declare_of_some (found : Frame.lookup name scope = some cell) :
    declare name fresh (scope :: outer) = scope :: outer := by
  simp only [declare, found]

theorem declare_of_none (absent : Frame.lookup name scope = none) :
    declare name fresh (scope :: outer) = ((name, fresh) :: scope) :: outer := by
  simp only [declare, absent]

end Env

structure State where
  env : Env
  cells : List Value
  globals : List (String × Value)
  depth : Nat
  printed : Array String
  closures : Nat
  readings : Nat

namespace State

def initial : State := ⟨[], [], [], 0, #[], 0, 0⟩

def value? (state : State) (name : String) : Option Value :=
  match state.env.cell? name with
  | some cell => state.cells[cell]?
  | none => Frame.lookup name state.globals

def read (state : State) (name : Token) : Except Failure Value :=
  match state.value? name.lexeme with
  | some value => .ok value
  | none => .error (Machine.undefined name)

def assign (state : State) (name : Token) (value : Value) : Except Failure State :=
  match state.env.cell? name.lexeme with
  | some cell => .ok { state with cells := state.cells.set cell value }
  | none =>
    match Frame.lookup name.lexeme state.globals with
    | some _ => .ok { state with globals := Frame.bind name.lexeme value state.globals }
    | none => .error (Machine.undefined name)

def declare (state : State) (name : String) (value : Value) : State :=
  match state.env with
  | [] => { state with globals := Frame.bind name value state.globals }
  | scope :: _ =>
    match Frame.lookup name scope with
    | some cell => { state with cells := state.cells.set cell value }
    | none =>
      { state with
        env := state.env.declare name state.cells.length
        cells := state.cells ++ [value] }

section
variable {state : State} {name : String} {value : Value} {scope : List (String × Nat)} {outer : Env}
  {cell : Nat}

theorem declare_of_outside (outside : state.env = []) :
    state.declare name value = { state with globals := Frame.bind name value state.globals } := by
  simp only [declare, outside]

theorem declare_of_some (inside : state.env = scope :: outer)
    (found : Frame.lookup name scope = some cell) :
    state.declare name value = { state with cells := state.cells.set cell value } := by
  simp only [declare, inside, found]

theorem declare_of_none (inside : state.env = scope :: outer)
    (absent : Frame.lookup name scope = none) :
    state.declare name value =
      { state with
        env := ((name, state.cells.length) :: scope) :: outer
        cells := state.cells ++ [value] } := by
  simp only [declare, inside, absent, Env.declare_of_none absent]

end

def declareAll (state : State) (params : List Token) (arguments : List Value) : State :=
  (params.zip arguments).foldl (fun state pair => state.declare pair.1.lexeme pair.2) state

def declareClosure (state : State) (name : Token) (params : List Token) (body : List Stmt) :
    State :=
  let env := state.env.declare name.lexeme state.cells.length
  { state.declare name.lexeme (.closure ⟨state.closures, name, params, body, env⟩) with
    closures := state.closures + 1 }

def enter (state : State) (env : Env) : State := { state with env := [] :: env }

def returnTo (state : State) (env : Env) (depth : Nat) : State :=
  { state with env := env, depth := depth }

def print (state : State) (line : String) : State :=
  { state with printed := state.printed.push line }

end State

mutual

def evaluate (rules : Rules) : Nat → Expr → State → OutcomeIn State Value
  | 0, _, state => .cut state
  | fuel + 1, expr, state =>
    match expr with
    | .literal value => .done (.literal value) state
    | .grouping inner => evaluate rules fuel inner state
    | .unary operator operand =>
      (evaluate rules fuel operand state).bind fun value state =>
        .ofExcept (Operator.unary operator value) state
    | .binary left operator right =>
      (evaluate rules fuel left state).bind fun left state =>
        (evaluate rules fuel right state).bind fun right state =>
          .ofExcept (Operator.binary operator left right) state
    | .logical left operator right =>
      (evaluate rules fuel left state).bind fun left state =>
        if Operator.decides operator left then .done left state
        else evaluate rules fuel right state
    | .reference name _ => .ofExcept (state.read name) state
    | .assign name value _ =>
      (evaluate rules fuel value state).bind fun value state =>
        match state.assign name value with
        | .ok state => .done value state
        | .error failure => .failed failure state
    | .call callee paren arguments =>
      (evaluate rules fuel callee state).bind fun callee state =>
        (evaluateAll rules fuel arguments state).bind fun arguments state =>
          call rules fuel callee arguments paren.line state
    | .misplaced node => .failed (.fault (.malformed (.expression node.kindName))) state

def evaluateAll (rules : Rules) : Nat → List Expr → State → OutcomeIn State (List Value)
  | 0, _, state => .cut state
  | _ + 1, [], state => .done [] state
  | fuel + 1, first :: others, state =>
    (evaluate rules fuel first state).bind fun first state =>
      (evaluateAll rules fuel others state).bind fun others state =>
        .done (first :: others) state

def call (rules : Rules) : Nat → Value → List Value → Int → State → OutcomeIn State Value
  | 0, _, _, _, state => .cut state
  | fuel + 1, callee, arguments, line, state =>
    match rules.refusal? callee arguments.length state.depth with
    | some cause => .failed (.runtime ⟨line, cause⟩) state
    | none =>
      match callee with
      | .closure function =>
        let env := state.env
        let depth := state.depth
        let inner := { state.enter function.env with depth := depth + 1 }
        ((executeAll rules fuel function.body (inner.declareAll function.params arguments)).bind
          fun completion state => .done completion.value state).mapState (·.returnTo env depth)
      | .native .clock =>
        .done (.number (rules.clock state.readings)) { state with readings := state.readings + 1 }
      | .literal _ => .failed (.runtime ⟨line, .notCallable⟩) state

def execute (rules : Rules) : Nat → Stmt → State → OutcomeIn State Completion
  | 0, _, state => .cut state
  | fuel + 1, stmt, state =>
    match stmt with
    | .expression inner =>
      (evaluate rules fuel inner state).bind fun _ state => .done .normal state
    | .print inner =>
      (evaluate rules fuel inner state).bind fun value state =>
        .done .normal (state.print value.display)
    | .varDecl name none => .done .normal (state.declare name.lexeme .nil)
    | .varDecl name (some initializer) =>
      (evaluate rules fuel initializer state).bind fun value state =>
        .done .normal (state.declare name.lexeme value)
    | .block body =>
      let env := state.env
      let depth := state.depth
      (executeAll rules fuel body (state.enter env)).mapState (·.returnTo env depth)
    | .conditional condition yes no =>
      (evaluate rules fuel condition state).bind fun value state =>
        if value.truthy then execute rules fuel yes state
        else
          match no with
          | none => .done .normal state
          | some no => execute rules fuel no state
    | .loop condition body => executeLoop rules fuel condition body state
    | .funDecl name params body => .done .normal (state.declareClosure name params body)
    | .ret _ none => .done (.returned .nil) state
    | .ret _ (some value) =>
      (evaluate rules fuel value state).bind fun value state => .done (.returned value) state
    | .misplaced node => .failed (.fault (.malformed (.statement node.kindName))) state

def executeAll (rules : Rules) : Nat → List Stmt → State → OutcomeIn State Completion
  | 0, _, state => .cut state
  | _ + 1, [], state => .done .normal state
  | fuel + 1, first :: others, state =>
    (execute rules fuel first state).bind fun completion state =>
      match completion with
      | .normal => executeAll rules fuel others state
      | .returned value => .done (.returned value) state

def executeLoop (rules : Rules) : Nat → Expr → Stmt → State → OutcomeIn State Completion
  | 0, _, _, state => .cut state
  | fuel + 1, condition, body, state =>
    (evaluate rules fuel condition state).bind fun value state =>
      if value.truthy then
        (execute rules fuel body state).bind fun completion state =>
          match completion with
          | .normal => executeLoop rules fuel condition body state
          | .returned value => .done (.returned value) state
      else .done .normal state

end

theorem call_of_refused {rules : Rules} {fuel : Nat} {callee : Value} {arguments : List Value}
    {line : Int} {state : State} {cause : RuntimeError.Cause}
    (refused : rules.refusal? callee arguments.length state.depth = some cause) :
    call rules (fuel + 1) callee arguments line state = .failed (.runtime ⟨line, cause⟩) state := by
  cases callee with
  | literal value => rw [call, refused]
  | closure function => rw [call, refused]
  | native function => cases function; rw [call, refused]

/-- Run top-level statements, and go back to the globals however they end. -/
def interpret (rules : Rules) (fuel : Nat) (statements : List Stmt) (state : State) :
    OutcomeIn State Unit :=
  ((executeAll rules fuel statements state).bind fun _ state => .done () state).mapState
    (·.returnTo [] 0)

end Lox.Cells
