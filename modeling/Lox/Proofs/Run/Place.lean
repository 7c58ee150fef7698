import Lox.Proofs.Values

/-! Where the tasks of a run stop.

A block only goes back to its frame, and a call takes back the one step of depth that it
went in. Every task stops in the frame and at the depth at which it began, however it ends,
so both come back to exactly the place that they left.
-/

set_option autoImplicit false

namespace Lox

inductive Task where
  | evaluate (expr : Expr)
  | evaluateAll (exprs : List Expr)
  | call (callee : Value) (arguments : List Value) (line : Int)
  | execute (stmt : Stmt)
  | executeAll (stmts : List Stmt)
  | executeLoop (condition : Expr) (body : Stmt)

namespace Task

def Answer : Task → Type
  | .evaluate _ | .call .. => Value
  | .evaluateAll _ => List Value
  | .execute _ | .executeAll _ | .executeLoop .. => Completion

def run (rules : Rules) (fuel : Nat) (machine : Machine) : (task : Task) → Outcome task.Answer
  | .evaluate expr => Lox.evaluate rules fuel expr machine
  | .evaluateAll exprs => Lox.evaluateAll rules fuel exprs machine
  | .call callee arguments line => Lox.call rules fuel callee arguments line machine
  | .execute stmt => Lox.execute rules fuel stmt machine
  | .executeAll stmts => Lox.executeAll rules fuel stmts machine
  | .executeLoop condition body => Lox.executeLoop rules fuel condition body machine

end Task

namespace Machine

/-- In the same frame, at the same depth of calls. -/
structure SamePlace (before after : Machine) : Prop where
  frame : after.frame = before.frame
  depth : after.depth = before.depth

variable {machine middle last : Machine}

theorem SamePlace.refl (machine : Machine) : machine.SamePlace machine := ⟨rfl, rfl⟩

theorem SamePlace.trans (first : machine.SamePlace middle) (second : middle.SamePlace last) :
    machine.SamePlace last :=
  ⟨second.frame.trans first.frame, second.depth.trans first.depth⟩

theorem samePlace_defineAll (params : List Token) :
    ∀ (arguments : List Value) (machine : Machine),
      machine.SamePlace (machine.defineAll params arguments) := by
  induction params with
  | nil => exact fun _ machine => .refl machine
  | cons param params ih =>
    intro arguments machine
    cases arguments with
    | nil => exact .refl machine
    | cons argument arguments =>
      have defined : machine.SamePlace (machine.define param.lexeme argument) := ⟨rfl, rfl⟩
      exact defined.trans (ih arguments _)

/-- The state in which the body of a called function begins. -/
def enterCall (machine : Machine) (function : Closure) (arguments : List Value) : Machine :=
  { machine.enter function.env with depth := machine.depth + 1 }.defineAll
    function.params arguments

theorem depth_enterCall (machine : Machine) (function : Closure) (arguments : List Value) :
    (machine.enterCall function arguments).depth = machine.depth + 1 :=
  (samePlace_defineAll function.params arguments _).depth

end Machine

namespace OutcomeIn

section
variable {σ α β : Type}

/-- The state in which a step stops, however it ends. -/
def state : OutcomeIn σ α → σ
  | .done _ state | .failed _ state | .cut state => state

theorem state_mapState (outcome : OutcomeIn σ α) (change : σ → σ) :
    (outcome.mapState change).state = change outcome.state := by
  cases outcome <;> rfl

theorem state_bind_done (outcome : OutcomeIn σ α) (change : α → β) :
    (outcome.bind fun value state => .done (change value) state).state = outcome.state := by
  cases outcome <;> rfl

theorem mapState_mapState (outcome : OutcomeIn σ α) (first second : σ → σ) :
    (outcome.mapState first).mapState second = outcome.mapState fun state => second (first state) := by
  cases outcome <;> rfl

theorem mapState_congr {outcome : OutcomeIn σ α} {change other : σ → σ}
    (same : change outcome.state = other outcome.state) :
    outcome.mapState change = outcome.mapState other := by
  cases outcome with
  | done value state => exact congrArg (done value) same
  | failed failure state => exact congrArg (failed failure) same
  | @exhausted state => exact congrArg (fun state => (cut state : OutcomeIn σ α)) same

end

variable {α β : Type} {machine inner : Machine}

def Restores (outcome : Outcome α) (before : Machine) : Prop := before.SamePlace outcome.state

theorem Restores.bind {outcome : Outcome α} {next : α → Machine → Outcome β}
    (restores : outcome.Restores machine)
    (goesOn : ∀ value after, outcome = .done value after → (next value after).Restores after) :
    (outcome.bind next).Restores machine := by
  cases outcome with
  | done value after => exact Machine.SamePlace.trans restores (goesOn value after rfl)
  | failed failure after => exact restores
  | exhausted => exact restores

theorem Restores.bind_done {outcome : Outcome α} (restores : outcome.Restores machine)
    (change : α → β) :
    OutcomeIn.Restores (outcome.bind fun value state => .done (change value) state) machine := by
  rw [Restores, state_bind_done]
  exact restores

theorem restores_ofExcept (result : Except Failure α) (machine : Machine) :
    (ofExcept result machine).Restores machine := by
  cases result <;> exact .refl machine

theorem restores_returnTo (outcome : Outcome α) (machine : Machine) :
    (outcome.mapState (·.returnTo machine.frame machine.depth)).Restores machine := by
  rw [Restores, state_mapState]
  exact ⟨rfl, rfl⟩

/-- The depth needs no way back from what went on at the same depth. -/
theorem Restores.backTo {outcome : Outcome α} (restores : outcome.Restores inner)
    (depth : inner.depth = machine.depth) :
    outcome.mapState (·.backTo machine.frame) =
      outcome.mapState (·.returnTo machine.frame machine.depth) := by
  have kept : outcome.state.depth = machine.depth := restores.depth.trans depth
  apply mapState_congr
  rw [Machine.backTo, Machine.returnTo, ← kept]

theorem Restores.endCall {outcome : Outcome α} (restores : outcome.Restores inner)
    (depth : inner.depth = machine.depth + 1) :
    (outcome.mapState (·.backTo machine.frame)).mapState (·.endCall) =
      outcome.mapState (·.returnTo machine.frame machine.depth) := by
  have kept : outcome.state.depth = machine.depth + 1 := restores.depth.trans depth
  rw [mapState_mapState]
  apply mapState_congr
  rw [Machine.endCall, Machine.backTo, Machine.returnTo, kept, Nat.add_sub_cancel]

end OutcomeIn

namespace Task

def RestoresWith (rules : Rules) (fuel : Nat) : Prop :=
  ∀ (task : Task) (machine : Machine), (task.run rules fuel machine).Restores machine

namespace RestoresWith

variable {rules : Rules} {fuel : Nat}

theorem execute_block (restores : RestoresWith rules fuel) (body : List Stmt) (machine : Machine) :
    Lox.execute rules (fuel + 1) (.block body) machine =
      (Lox.executeAll rules fuel body (machine.enter machine.frame)).mapState
        (·.returnTo machine.frame machine.depth) :=
  OutcomeIn.Restores.backTo (restores (.executeAll body) (machine.enter machine.frame)) rfl

theorem call_closure (restores : RestoresWith rules fuel) {function : Closure}
    {arguments : List Value} {machine : Machine} (line : Int)
    (accepted : rules.refusal? (.closure function) arguments.length machine.depth = none) :
    Lox.call rules (fuel + 1) (.closure function) arguments line machine =
      ((Lox.executeAll rules fuel function.body (machine.enterCall function arguments)).bind
        fun completion after => .done completion.value after).mapState
          (·.returnTo machine.frame machine.depth) := by
  have body := restores (.executeAll function.body) (machine.enterCall function arguments)
  rw [Lox.call, accepted]
  exact (body.bind_done CompletionIn.value).endCall (machine.depth_enterCall function arguments)

theorem evaluate_succ (ih : RestoresWith rules fuel) (expr : Expr) (machine : Machine) :
    (Lox.evaluate rules (fuel + 1) expr machine).Restores machine := by
  cases expr with
  | literal value => exact .refl machine
  | grouping inner => exact ih (.evaluate inner) machine
  | unary operator operand =>
    refine (ih (.evaluate operand) machine).bind fun value after _ => ?_
    exact OutcomeIn.restores_ofExcept _ after
  | binary left operator right =>
    refine (ih (.evaluate left) machine).bind fun value middle _ => ?_
    refine (ih (.evaluate right) middle).bind fun value after _ => ?_
    exact OutcomeIn.restores_ofExcept _ after
  | logical left operator right =>
    refine (ih (.evaluate left) machine).bind fun value middle _ => ?_
    split
    · exact .refl middle
    · exact ih (.evaluate right) middle
  | reference name distance => exact OutcomeIn.restores_ofExcept _ machine
  | assign name value distance =>
    refine (ih (.evaluate value) machine).bind fun result after _ => ?_
    split <;> exact ⟨rfl, rfl⟩
  | call callee paren arguments =>
    refine (ih (.evaluate callee) machine).bind fun value middle _ => ?_
    refine (ih (.evaluateAll arguments) middle).bind fun values after _ => ?_
    exact ih (.call value values paren.line) after
  | misplaced node => exact .refl machine

theorem evaluateAll_succ (ih : RestoresWith rules fuel) (exprs : List Expr) (machine : Machine) :
    (Lox.evaluateAll rules (fuel + 1) exprs machine).Restores machine := by
  cases exprs with
  | nil => exact .refl machine
  | cons first others =>
    refine (ih (.evaluate first) machine).bind fun value middle _ => ?_
    refine (ih (.evaluateAll others) middle).bind fun values after _ => ?_
    exact .refl after

theorem call_succ (ih : RestoresWith rules fuel) (callee : Value) (arguments : List Value)
    (line : Int) (machine : Machine) :
    (Lox.call rules (fuel + 1) callee arguments line machine).Restores machine := by
  cases accepted : rules.refusal? callee arguments.length machine.depth with
  | some cause =>
    rw [call_of_refused accepted]
    exact .refl machine
  | none =>
    cases callee with
    | literal value => cases accepted
    | closure function =>
      rw [ih.call_closure line accepted]
      exact OutcomeIn.restores_returnTo _ machine
    | native function =>
      cases function
      rw [Lox.call, accepted]
      exact ⟨rfl, rfl⟩

theorem execute_succ (ih : RestoresWith rules fuel) (stmt : Stmt) (machine : Machine) :
    (Lox.execute rules (fuel + 1) stmt machine).Restores machine := by
  cases stmt with
  | expression inner => exact (ih (.evaluate inner) machine).bind fun value after _ => .refl after
  | print inner => exact (ih (.evaluate inner) machine).bind fun value after _ => ⟨rfl, rfl⟩
  | varDecl name initializer =>
    cases initializer with
    | none => exact ⟨rfl, rfl⟩
    | some initializer =>
      exact (ih (.evaluate initializer) machine).bind fun value after _ => ⟨rfl, rfl⟩
  | block body =>
    -- The body may end anywhere; the frame is put back behind it.
    rw [ih.execute_block]
    exact OutcomeIn.restores_returnTo _ machine
  | conditional condition yes no =>
    refine (ih (.evaluate condition) machine).bind fun value middle _ => ?_
    split
    · exact ih (.execute yes) middle
    · cases no with
      | none => exact .refl middle
      | some no => exact ih (.execute no) middle
  | loop condition body => exact ih (.executeLoop condition body) machine
  | funDecl name params body => exact ⟨rfl, rfl⟩
  | ret keyword value =>
    cases value with
    | none => exact .refl machine
    | some value => exact (ih (.evaluate value) machine).bind fun value after _ => .refl after
  | misplaced node => exact .refl machine

theorem executeAll_succ (ih : RestoresWith rules fuel) (stmts : List Stmt) (machine : Machine) :
    (Lox.executeAll rules (fuel + 1) stmts machine).Restores machine := by
  cases stmts with
  | nil => exact .refl machine
  | cons first others =>
    refine (ih (.execute first) machine).bind fun completion middle _ => ?_
    cases completion with
    | normal => exact ih (.executeAll others) middle
    | returned value => exact .refl middle

theorem executeLoop_succ (ih : RestoresWith rules fuel) (condition : Expr) (body : Stmt)
    (machine : Machine) :
    (Lox.executeLoop rules (fuel + 1) condition body machine).Restores machine := by
  refine (ih (.evaluate condition) machine).bind fun value middle _ => ?_
  split
  · refine (ih (.execute body) middle).bind fun completion after _ => ?_
    cases completion with
    | normal => exact ih (.executeLoop condition body) after
    | returned value => exact .refl after
  · exact .refl middle

end RestoresWith

theorem restoresWith (rules : Rules) (fuel : Nat) : RestoresWith rules fuel := by
  induction fuel with
  | zero =>
    intro task machine
    cases task <;> exact .refl machine
  | succ fuel ih =>
    intro task machine
    cases task with
    | evaluate expr => exact ih.evaluate_succ expr machine
    | evaluateAll exprs => exact ih.evaluateAll_succ exprs machine
    | call callee arguments line => exact ih.call_succ callee arguments line machine
    | execute stmt => exact ih.execute_succ stmt machine
    | executeAll stmts => exact ih.executeAll_succ stmts machine
    | executeLoop condition body => exact ih.executeLoop_succ condition body machine

end Task

section
variable (rules : Rules) (fuel : Nat)

theorem execute_block (body : List Stmt) (machine : Machine) :
    execute rules (fuel + 1) (.block body) machine =
      (executeAll rules fuel body (machine.enter machine.frame)).mapState
        (·.returnTo machine.frame machine.depth) :=
  (Task.restoresWith rules fuel).execute_block body machine

theorem call_closure {function : Closure} {arguments : List Value} {machine : Machine} (line : Int)
    (accepted : rules.refusal? (.closure function) arguments.length machine.depth = none) :
    call rules (fuel + 1) (.closure function) arguments line machine =
      ((executeAll rules fuel function.body (machine.enterCall function arguments)).bind
        fun completion after => .done completion.value after).mapState
          (·.returnTo machine.frame machine.depth) :=
  (Task.restoresWith rules fuel).call_closure line accepted

/-- A call is refused, runs the body of a function or reads the clock. -/
theorem call_cases (callee : Value) (arguments : List Value) (line : Int) (machine : Machine) :
    (∃ cause, rules.refusal? callee arguments.length machine.depth = some cause ∧
      call rules (fuel + 1) callee arguments line machine =
        .failed (.runtime ⟨line, cause⟩) machine) ∨
    (∃ function, callee = .closure function ∧
      rules.refusal? (.closure function) arguments.length machine.depth = none ∧
      call rules (fuel + 1) (.closure function) arguments line machine =
        ((executeAll rules fuel function.body (machine.enterCall function arguments)).bind
          fun completion after => .done completion.value after).mapState
            (·.returnTo machine.frame machine.depth)) ∨
    (callee = .native .clock ∧
      rules.refusal? (.native .clock : Value) arguments.length machine.depth = none ∧
      call rules (fuel + 1) (.native .clock) arguments line machine =
        .done (.number (rules.clock machine.readings))
          { machine with readings := machine.readings + 1 }) := by
  cases accepted : rules.refusal? callee arguments.length machine.depth with
  | some cause => exact .inl ⟨cause, rfl, call_of_refused accepted⟩
  | none =>
    cases callee with
    | literal value => cases accepted
    | closure function =>
      exact .inr (.inl ⟨function, rfl, accepted, call_closure rules fuel line accepted⟩)
    | native function =>
      cases function
      exact .inr (.inr ⟨rfl, accepted, by rw [call, accepted]⟩)

end

end Lox
