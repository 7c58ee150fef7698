import Lox.Proofs.Run.Point

/-! The changes that a run makes to the machine.

A task changes the machine in front of the tasks that it starts and behind them. Those of
a whole run follow one another, so from its beginning they lead to every point that it
comes to and to the state in which it stops, however it ends.
-/

set_option autoImplicit false

namespace Lox

namespace Machine

def openCall (machine : Machine) (function : Closure) : Machine :=
  { machine.enter function.env with depth := machine.depth + 1 }

def bindAll (machine : Machine) (pairs : List (Token × Value)) : Machine :=
  pairs.foldl (fun machine pair => machine.define pair.1.lexeme pair.2) machine

theorem bindAll_concat (machine : Machine) (pairs : List (Token × Value)) (param : Token)
    (argument : Value) :
    machine.bindAll (pairs ++ [(param, argument)]) =
      (machine.bindAll pairs).define param.lexeme argument := by
  rw [bindAll, List.foldl_append]
  rfl

end Machine

namespace Point

section
variable (rules : Rules)

/-- The changes that a task makes itself, each to the state that the tasks before it left. -/
inductive Makes : Point → Machine → Machine → Prop where
  | assign {fuel : Nat} {machine after : Machine} {name : Token} {value : Expr}
      {distance : Option Nat} {result : Value} {found : Nat} :
      evaluate rules fuel value machine = .done result after →
      after.locate rules.lookup name distance = .ok found →
      Makes ⟨.evaluate (.assign name value distance), fuel + 1, machine⟩ after
        (after.replace found name.lexeme result)
  | openCall {fuel : Nat} {machine : Machine} {function : Closure} {arguments : List Value}
      {line : Int} :
      rules.refusal? (.closure function) arguments.length machine.depth = none →
      Makes ⟨.call (.closure function) arguments line, fuel + 1, machine⟩ machine
        (machine.openCall function)
  | parameter {fuel : Nat} {machine : Machine} {function : Closure} {arguments : List Value}
      {line : Int} {bound others : List (Token × Value)} {param : Token} {argument : Value} :
      rules.refusal? (.closure function) arguments.length machine.depth = none →
      function.params.zip arguments = bound ++ (param, argument) :: others →
      Makes ⟨.call (.closure function) arguments line, fuel + 1, machine⟩
        ((machine.openCall function).bindAll bound)
        (((machine.openCall function).bindAll bound).define param.lexeme argument)
  | leaveCall {fuel : Nat} {machine after : Machine} {function : Closure} {arguments : List Value}
      {line : Int} :
      rules.refusal? (.closure function) arguments.length machine.depth = none →
      (executeAll rules fuel function.body (machine.enterCall function arguments)).state = after →
      Makes ⟨.call (.closure function) arguments line, fuel + 1, machine⟩ after
        (after.returnTo machine.frame machine.depth)
  | clock {fuel : Nat} {machine : Machine} {arguments : List Value} {line : Int} :
      rules.refusal? (.native .clock : Value) arguments.length machine.depth = none →
      Makes ⟨.call (.native .clock) arguments line, fuel + 1, machine⟩ machine
        { machine with readings := machine.readings + 1 }
  | print {fuel : Nat} {machine after : Machine} {inner : Expr} {value : Value} :
      evaluate rules fuel inner machine = .done value after →
      Makes ⟨.execute (.print inner), fuel + 1, machine⟩ after (after.print value.display)
  | bare {fuel : Nat} {machine : Machine} {name : Token} :
      Makes ⟨.execute (.varDecl name none), fuel + 1, machine⟩ machine
        (machine.define name.lexeme .nil)
  | initialized {fuel : Nat} {machine after : Machine} {name : Token} {initializer : Expr}
      {value : Value} :
      evaluate rules fuel initializer machine = .done value after →
      Makes ⟨.execute (.varDecl name (some initializer)), fuel + 1, machine⟩ after
        (after.define name.lexeme value)
  | openBlock {fuel : Nat} {machine : Machine} {body : List Stmt} :
      Makes ⟨.execute (.block body), fuel + 1, machine⟩ machine (machine.enter machine.frame)
  | leaveBlock {fuel : Nat} {machine after : Machine} {body : List Stmt} :
      (executeAll rules fuel body (machine.enter machine.frame)).state = after →
      Makes ⟨.execute (.block body), fuel + 1, machine⟩ after
        (after.returnTo machine.frame machine.depth)
  | function {fuel : Nat} {machine : Machine} {name : Token} {params : List Token}
      {body : List Stmt} :
      Makes ⟨.execute (.funDecl name params body), fuel + 1, machine⟩ machine
        (machine.defineClosure name params body)

def Made (point : Point) (before after : Machine) : Prop :=
  ∃ culprit, Reaches rules point culprit ∧ Makes rules culprit before after

/-- The changes of a run lead from one machine to another. -/
def Leads (point : Point) : Machine → Machine → Prop := Relation.ReflTransGen (Made rules point)

end

variable {rules : Rules} {fuel : Nat} {point next : Point} {before machine middle after : Machine}

theorem Made.of_reaches (reaches : Reaches rules point next) (made : Made rules next before after) :
    Made rules point before after := by
  obtain ⟨culprit, further, makes⟩ := made
  exact ⟨culprit, Relation.ReflTransGen.trans reaches further, makes⟩

theorem Leads.of_reaches (reaches : Reaches rules point next) (leads : Leads rules next before after) :
    Leads rules point before after :=
  Relation.ReflTransGen.mono (fun _ _ made => Made.of_reaches reaches made) _ _ leads

theorem Leads.of_starts (starts : Starts rules point next) (leads : Leads rules next before after) :
    Leads rules point before after :=
  .of_reaches (.single starts) leads

theorem Leads.of_makes (makes : Makes rules point before after) : Leads rules point before after :=
  .single ⟨point, .refl, makes⟩

theorem Leads.trans (first : Leads rules point before middle)
    (second : Leads rules point middle after) : Leads rules point before after :=
  Relation.ReflTransGen.trans first second

theorem leads_parameters {function : Closure} {arguments : List Value} {line : Int}
    (accepted : rules.refusal? (.closure function) arguments.length machine.depth = none)
    (others : List (Token × Value)) : ∀ bound : List (Token × Value),
    function.params.zip arguments = bound ++ others →
    Leads rules ⟨.call (.closure function) arguments line, fuel + 1, machine⟩
      ((machine.openCall function).bindAll bound)
      ((machine.openCall function).bindAll (function.params.zip arguments)) := by
  induction others with
  | nil =>
    intro bound split
    rw [split, List.append_nil]
    exact .refl
  | cons pair others ih =>
    intro bound split
    have rest := ih (bound ++ [pair]) (by rw [split, List.append_assoc]; rfl)
    rw [Machine.bindAll_concat] at rest
    exact (Leads.of_makes (.parameter accepted split)).trans rest

theorem leads_enterCall {function : Closure} {arguments : List Value} {line : Int}
    (accepted : rules.refusal? (.closure function) arguments.length machine.depth = none) :
    Leads rules ⟨.call (.closure function) arguments line, fuel + 1, machine⟩ machine
      (machine.enterCall function arguments) :=
  (Leads.of_makes (.openCall accepted)).trans
    (leads_parameters accepted (function.params.zip arguments) [] rfl)

end Point

namespace OutcomeIn

variable {α β : Type} {rules : Rules} {point : Point} {before : Machine}

def Led (rules : Rules) (point : Point) (before : Machine) (outcome : Outcome α) : Prop :=
  Point.Leads rules point before outcome.state

theorem Led.bind {outcome : Outcome α} {next : α → Machine → Outcome β}
    (led : outcome.Led rules point before)
    (goesOn : ∀ value after, outcome = .done value after → (next value after).Led rules point after) :
    (outcome.bind next).Led rules point before := by
  cases outcome with
  | done value after => exact Point.Leads.trans led (goesOn value after rfl)
  | failed failure after => exact led
  | exhausted => exact led

theorem led_self {outcome : Outcome α} (same : outcome.state = before) :
    outcome.Led rules point before := by
  rw [Led, same]
  exact .refl

theorem led_ofExcept (result : Except Failure α) (machine : Machine) :
    (ofExcept result machine).Led rules point machine := by
  cases result <;> exact led_self rfl

end OutcomeIn

namespace Point

def stop (rules : Rules) (point : Point) : Machine :=
  (point.task.run rules point.fuel point.machine).state

def ChangesWith (rules : Rules) (fuel : Nat) : Prop :=
  ∀ (task : Task) (machine : Machine),
    (task.run rules fuel machine).Led rules ⟨task, fuel, machine⟩ machine

namespace ChangesWith

variable {rules : Rules} {fuel : Nat} {point : Point} {machine : Machine}

theorem pass (ih : ChangesWith rules fuel) {task : Task}
    (starts : Starts rules point ⟨task, fuel, machine⟩) :
    (task.run rules fuel machine).Led rules point machine :=
  Leads.of_starts starts (ih task machine)

theorem evaluate_succ (ih : ChangesWith rules fuel) (expr : Expr) (machine : Machine) :
    (Lox.evaluate rules (fuel + 1) expr machine).Led rules
      ⟨.evaluate expr, fuel + 1, machine⟩ machine := by
  cases expr with
  | literal value => exact .refl
  | grouping inner => exact ih.pass .grouping
  | unary operator operand =>
    refine (ih.pass .unary).bind fun value after ran => ?_
    exact OutcomeIn.led_ofExcept _ after
  | binary left operator right =>
    refine (ih.pass .binaryLeft).bind fun value middle first => ?_
    refine (ih.pass (.binaryRight first)).bind fun value after second => ?_
    exact OutcomeIn.led_ofExcept _ after
  | logical left operator right =>
    refine (ih.pass .logicalLeft).bind fun value middle ran => ?_
    split
    · exact .refl
    next undecided => exact ih.pass (.logicalRight ran (Bool.eq_false_iff.mpr undecided))
  | reference name distance => exact OutcomeIn.led_ofExcept _ machine
  | assign name value distance =>
    refine (ih.pass .assigned).bind fun result after ran => ?_
    split
    next found located => exact Leads.of_makes (.assign ran located)
    next => exact .refl
  | call callee paren arguments =>
    refine (ih.pass .callee).bind fun value middle first => ?_
    refine (ih.pass (.arguments first)).bind fun values after second => ?_
    exact ih.pass (.call first second)
  | misplaced node => exact .refl

theorem evaluateAll_succ (ih : ChangesWith rules fuel) (exprs : List Expr) (machine : Machine) :
    (Lox.evaluateAll rules (fuel + 1) exprs machine).Led rules
      ⟨.evaluateAll exprs, fuel + 1, machine⟩ machine := by
  cases exprs with
  | nil => exact .refl
  | cons first others =>
    refine (ih.pass .firstExpr).bind fun value middle ran => ?_
    refine (ih.pass (.otherExprs ran)).bind fun values after rest => ?_
    exact .refl

theorem call_succ (ih : ChangesWith rules fuel) (callee : Value) (arguments : List Value)
    (line : Int) (machine : Machine) :
    (Lox.call rules (fuel + 1) callee arguments line machine).Led rules
      ⟨.call callee arguments line, fuel + 1, machine⟩ machine := by
  obtain ⟨_, _, called⟩ | ⟨function, rfl, accepted, called⟩ | ⟨rfl, accepted, called⟩ :=
    call_cases rules fuel callee arguments line machine
  · rw [called]
    exact .refl
  · -- The new frame with its parameters, then the body, then the way back.
    rw [called, OutcomeIn.Led, OutcomeIn.state_mapState, OutcomeIn.state_bind_done]
    refine (leads_enterCall accepted).trans ?_
    exact (ih.pass (.body accepted)).trans (.of_makes (.leaveCall accepted rfl))
  · rw [called]
    exact Leads.of_makes (.clock accepted)

theorem execute_succ (ih : ChangesWith rules fuel) (stmt : Stmt) (machine : Machine) :
    (Lox.execute rules (fuel + 1) stmt machine).Led rules
      ⟨.execute stmt, fuel + 1, machine⟩ machine := by
  cases stmt with
  | expression inner => exact (ih.pass .expression).bind fun value after ran => .refl
  | print inner =>
    exact (ih.pass .print).bind fun value after ran => Leads.of_makes (.print ran)
  | varDecl name initializer =>
    cases initializer with
    | none => exact Leads.of_makes .bare
    | some initializer =>
      exact (ih.pass .initializer).bind fun value after ran => Leads.of_makes (.initialized ran)
  | block body =>
    rw [execute_block, OutcomeIn.Led, OutcomeIn.state_mapState]
    -- The frame is opened, the body runs, and the frame is left whatever the body ended in.
    refine (Leads.of_makes .openBlock).trans ?_
    exact (ih.pass .block).trans (.of_makes (.leaveBlock rfl))
  | conditional condition yes no =>
    refine (ih.pass .condition).bind fun value middle ran => ?_
    split
    next holds => exact ih.pass (.yes ran holds)
    next fails =>
      cases no with
      | none => exact .refl
      | some no => exact ih.pass (.no ran (Bool.eq_false_iff.mpr fails))
  | loop condition body => exact ih.pass .loop
  | funDecl name params body => exact Leads.of_makes .function
  | ret keyword value =>
    cases value with
    | none => exact .refl
    | some value => exact (ih.pass .returned).bind fun value after ran => .refl
  | misplaced node => exact .refl

theorem executeAll_succ (ih : ChangesWith rules fuel) (stmts : List Stmt) (machine : Machine) :
    (Lox.executeAll rules (fuel + 1) stmts machine).Led rules
      ⟨.executeAll stmts, fuel + 1, machine⟩ machine := by
  cases stmts with
  | nil => exact .refl
  | cons first others =>
    refine (ih.pass .firstStmt).bind fun completion middle ran => ?_
    cases completion with
    | normal => exact ih.pass (.otherStmts ran)
    | returned value => exact .refl

theorem executeLoop_succ (ih : ChangesWith rules fuel) (condition : Expr) (body : Stmt)
    (machine : Machine) :
    (Lox.executeLoop rules (fuel + 1) condition body machine).Led rules
      ⟨.executeLoop condition body, fuel + 1, machine⟩ machine := by
  refine (ih.pass .loopCondition).bind fun value middle ran => ?_
  split
  next holds =>
    refine (ih.pass (.loopBody ran holds)).bind fun completion later went => ?_
    cases completion with
    | normal => exact ih.pass (.loopAgain ran holds went)
    | returned value => exact .refl
  next => exact .refl

end ChangesWith

theorem changesWith (rules : Rules) (fuel : Nat) : ChangesWith rules fuel := by
  induction fuel with
  | zero =>
    intro task machine
    cases task <;> exact .refl
  | succ fuel ih =>
    intro task machine
    cases task with
    | evaluate expr => exact ih.evaluate_succ expr machine
    | evaluateAll exprs => exact ih.evaluateAll_succ exprs machine
    | call callee arguments line => exact ih.call_succ callee arguments line machine
    | execute stmt => exact ih.execute_succ stmt machine
    | executeAll stmts => exact ih.executeAll_succ stmts machine
    | executeLoop condition body => exact ih.executeLoop_succ condition body machine

variable {rules : Rules} {fuel : Nat} {point next : Point} {machine after : Machine}

theorem Starts.leads_done {task : Task} {value : task.Answer}
    (starts : Starts rules point ⟨task, fuel, machine⟩)
    (ran : task.run rules fuel machine = .done value after) : Leads rules point machine after := by
  have led := (changesWith rules fuel).pass starts
  rw [OutcomeIn.Led, ran] at led
  exact led

theorem Starts.leads (starts : Starts rules point next) :
    Leads rules point point.machine next.machine := by
  cases starts with
  | binaryRight ran => exact leads_done .binaryLeft ran
  | logicalRight ran _ => exact leads_done .logicalLeft ran
  | arguments ran => exact leads_done .callee ran
  | call ran ranAll => exact (leads_done .callee ran).trans (leads_done (.arguments ran) ranAll)
  | otherExprs ran => exact leads_done .firstExpr ran
  | body accepted => exact leads_enterCall accepted
  | block => exact .of_makes .openBlock
  | yes ran _ => exact leads_done .condition ran
  | no ran _ => exact leads_done .condition ran
  | otherStmts ran => exact leads_done .firstStmt ran
  | loopBody ran _ => exact leads_done .loopCondition ran
  | loopAgain ran holds went =>
    exact (leads_done .loopCondition ran).trans (leads_done (.loopBody ran holds) went)
  | _ => exact .refl

/-- The changes of a run lead to every point that it comes to. -/
theorem Reaches.leads (reaches : Reaches rules point next) :
    Leads rules point point.machine next.machine := by
  induction reaches using Relation.ReflTransGen.head_induction_on with
  | refl => exact .refl
  | head starts _ ih => exact starts.leads.trans (.of_starts starts ih)

theorem Reaches.leads_stop (reaches : Reaches rules point next) :
    Leads rules point point.machine (next.stop rules) :=
  reaches.leads.trans (.of_reaches reaches (changesWith rules next.fuel next.task next.machine))

end Point

end Lox
