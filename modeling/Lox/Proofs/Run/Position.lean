import Lox.Proofs.Run.Changes

/-! The frame and the depth of calls of a run.

Between the beginning of a task and its end, the depth counts the calls that are under way:
it grows where an accepted call enters its function, and a call is accepted only below the
limit.
-/

set_option autoImplicit false

namespace Lox

namespace Machine

theorem samePlace_bindAll (pairs : List (Token × Value)) :
    ∀ machine : Machine, machine.SamePlace (machine.bindAll pairs) := by
  induction pairs with
  | nil => exact .refl
  | cons pair others ih =>
    intro machine
    have defined : machine.SamePlace (machine.define pair.1.lexeme pair.2) := ⟨rfl, rfl⟩
    exact defined.trans (ih _)

theorem depth_bindAll_openCall (machine : Machine) (function : Closure)
    (pairs : List (Token × Value)) :
    ((machine.openCall function).bindAll pairs).depth = machine.depth + 1 :=
  (samePlace_bindAll pairs (machine.openCall function)).depth

end Machine

theorem Rules.depth_lt_of_accepted {rules : Rules} {callee : Value} {count depth : Nat}
    (accepted : rules.refusal? callee count depth = none) :
    ∀ limit ∈ rules.limit, (depth : Int) < limit := by
  intro limit isLimit
  unfold refusal? at accepted
  rw [Option.mem_def.mp isLimit] at accepted
  split at accepted
  · cases accepted
  · split at accepted
    · cases accepted
    · split at accepted
      · cases accepted
      next below => simpa using below

def Task.isCall : Task → Bool
  | .call .. => true
  | _ => false

namespace Point

theorem samePlace_stop (rules : Rules) (point : Point) :
    point.machine.SamePlace (point.stop rules) :=
  Task.restoresWith rules point.fuel point.task point.machine

section
variable (rules : Rules) (entry : Point)

/-- The tasks that are under way when another one begins, the innermost first. -/
inductive UnderWay : List Point → Point → Prop where
  | entry : UnderWay [] entry
  | starts {outer : List Point} {point next : Point} :
      UnderWay outer point → Starts rules point next → UnderWay (point :: outer) next

/-- The states that a run passes through, with the tasks under way: those in which tasks
begin and stop, and those in which an accepted call binds its parameters. -/
inductive Passes : List Point → Machine → Prop where
  | begins {outer : List Point} {point : Point} :
      UnderWay rules entry outer point → Passes outer point.machine
  | stops {outer : List Point} {point : Point} :
      UnderWay rules entry outer point → Passes outer (point.stop rules)
  | binds {outer : List Point} {fuel : Nat} {machine : Machine} {function : Closure}
      {arguments : List Value} {line : Int} (bound : List (Token × Value)) :
      UnderWay rules entry outer ⟨.call (.closure function) arguments line, fuel + 1, machine⟩ →
      rules.refusal? (.closure function) arguments.length machine.depth = none →
      bound <+: function.params.zip arguments →
      Passes (⟨.call (.closure function) arguments line, fuel + 1, machine⟩ :: outer)
        ((machine.openCall function).bindAll bound)

end

def calls (outer : List Point) : Nat := outer.countP (·.task.isCall)

variable {rules : Rules} {entry point next : Point} {outer : List Point}
  {before machine middle after : Machine} {fuel : Nat}

theorem calls_cons (point : Point) (outer : List Point) :
    calls (point :: outer) = calls outer + if point.task.isCall then 1 else 0 :=
  List.countP_cons

theorem depth_done (task : Task) {value : task.Answer}
    (ran : task.run rules fuel machine = .done value after) : after.depth = machine.depth := by
  have restores := Task.restoresWith rules fuel task machine
  rw [OutcomeIn.Restores, ran] at restores
  exact restores.depth

theorem Starts.depth (starts : Starts rules point next) :
    next.machine.depth = point.machine.depth + if point.task.isCall then 1 else 0 := by
  cases starts with
  | binaryRight ran => exact depth_done (.evaluate _) ran
  | logicalRight ran _ => exact depth_done (.evaluate _) ran
  | arguments ran => exact depth_done (.evaluate _) ran
  | call ran ranAll =>
    exact (depth_done (.evaluateAll _) ranAll).trans (depth_done (.evaluate _) ran)
  | otherExprs ran => exact depth_done (.evaluate _) ran
  | body _ => exact Machine.depth_enterCall _ _ _
  | yes ran _ => exact depth_done (.evaluate _) ran
  | no ran _ => exact depth_done (.evaluate _) ran
  | otherStmts ran => exact depth_done (.execute _) ran
  | loopBody ran _ => exact depth_done (.evaluate _) ran
  | loopAgain ran _ went => exact (depth_done (.execute _) went).trans (depth_done (.evaluate _) ran)
  | _ => rfl

theorem Starts.depth_lt (starts : Starts rules point next) (isCall : point.task.isCall = true) :
    ∀ limit ∈ rules.limit, (point.machine.depth : Int) < limit := by
  cases starts with
  | body accepted => exact Rules.depth_lt_of_accepted accepted
  | _ => cases isCall

/-- The depth counts the calls under way, and the limit bounds it. -/
structure Deep (rules : Rules) (entry : Point) (outer : List Point) (machine : Machine) : Prop where
  counts : machine.depth = entry.machine.depth + calls outer
  bounded : ∀ limit ∈ rules.limit, (machine.depth : Int) ≤ max (entry.machine.depth : Int) limit

theorem Deep.of_samePlace (deep : Deep rules entry outer before)
    (same : before.SamePlace after) : Deep rules entry outer after := by
  refine ⟨same.depth.trans deep.counts, fun limit isLimit => ?_⟩
  rw [same.depth]
  exact deep.bounded limit isLimit

theorem Deep.cons (deep : Deep rules entry outer point.machine)
    (deeper : after.depth = point.machine.depth + if point.task.isCall then 1 else 0)
    (below : point.task.isCall = true →
      ∀ limit ∈ rules.limit, (point.machine.depth : Int) < limit) :
    Deep rules entry (point :: outer) after := by
  have counts := deep.counts
  constructor
  · rw [deeper, calls_cons, counts, Nat.add_assoc]
  · intro limit isLimit
    have bounded := deep.bounded limit isLimit
    cases isCall : point.task.isCall with
    | false =>
      rw [isCall] at deeper
      rw [deeper]
      exact bounded
    | true =>
      have small := below isCall limit isLimit
      rw [isCall] at deeper
      rw [deeper]
      simp only [if_true]
      omega

theorem UnderWay.deep (underWay : UnderWay rules entry outer point) :
    Deep rules entry outer point.machine := by
  induction underWay with
  | entry => exact ⟨rfl, fun limit _ => Int.le_max_left _ _⟩
  | starts _ starts ih => exact ih.cons starts.depth starts.depth_lt

theorem Passes.deep (passes : Passes rules entry outer machine) :
    Deep rules entry outer machine := by
  cases passes with
  | begins underWay => exact underWay.deep
  | stops underWay => exact underWay.deep.of_samePlace (samePlace_stop rules _)
  | binds bound underWay accepted _ =>
    exact underWay.deep.cons (Machine.depth_bindAll_openCall _ _ bound) fun _ =>
      Rules.depth_lt_of_accepted accepted

theorem Reaches.underWay (reaches : Reaches rules entry point) :
    ∃ outer, UnderWay rules entry outer point := by
  induction reaches with
  | refl => exact ⟨[], .entry⟩
  | tail _ starts ih =>
    obtain ⟨outer, underWay⟩ := ih
    exact ⟨_, underWay.starts starts⟩

theorem stop_block {body : List Stmt} :
    stop rules ⟨.execute (.block body), fuel + 1, machine⟩ =
      (executeAll rules fuel body (machine.enter machine.frame)).state.returnTo machine.frame
        machine.depth := by
  change (Lox.execute rules (fuel + 1) (.block body) machine).state = _
  rw [execute_block, OutcomeIn.state_mapState]

theorem stop_call {function : Closure} {arguments : List Value} {line : Int}
    (accepted : rules.refusal? (.closure function) arguments.length machine.depth = none) :
    stop rules ⟨.call (.closure function) arguments line, fuel + 1, machine⟩ =
      (executeAll rules fuel function.body (machine.enterCall function arguments)).state.returnTo
        machine.frame machine.depth := by
  change (Lox.call rules (fuel + 1) (.closure function) arguments line machine).state = _
  rw [call_closure rules fuel line accepted, OutcomeIn.state_mapState, OutcomeIn.state_bind_done]

/-- The change of a task under way leads to a state that the run passes through. -/
theorem Makes.passes (makes : Makes rules point before after)
    (underWay : UnderWay rules entry outer point) :
    ∃ inner, Passes rules entry inner after := by
  have stops := Passes.stops underWay
  cases makes with
  | openCall accepted => exact ⟨_, .binds [] underWay accepted List.nil_prefix⟩
  | parameter accepted split =>
    rw [← Machine.bindAll_concat]
    refine ⟨_, .binds _ underWay accepted ?_⟩
    rw [split]
    exact ⟨_, List.append_assoc _ _ _⟩
  | openBlock => exact ⟨_, .begins (underWay.starts .block)⟩
  -- Every other change is the last of its task.
  | assign ran located =>
    simp only [stop, Task.run, Lox.evaluate, ran, OutcomeIn.bind, located, OutcomeIn.state] at stops
    exact ⟨_, stops⟩
  | leaveCall accepted ran =>
    subst ran
    exact ⟨_, stop_call accepted ▸ stops⟩
  | clock accepted =>
    simp only [stop, Task.run, Lox.call, accepted, OutcomeIn.state] at stops
    exact ⟨_, stops⟩
  | print ran =>
    simp only [stop, Task.run, Lox.execute, ran, OutcomeIn.bind, OutcomeIn.state] at stops
    exact ⟨_, stops⟩
  | initialized ran =>
    simp only [stop, Task.run, Lox.execute, ran, OutcomeIn.bind, OutcomeIn.state] at stops
    exact ⟨_, stops⟩
  | leaveBlock ran =>
    subst ran
    exact ⟨_, stop_block ▸ stops⟩
  | bare => exact ⟨_, stops⟩
  | function => exact ⟨_, stops⟩

/-- The changes of a run lead from one state that it passes through to another. -/
theorem Leads.passes (leads : Leads rules entry entry.machine machine) :
    ∃ outer, Passes rules entry outer machine := by
  cases Relation.ReflTransGen.cases_tail leads with
  | inl same => exact ⟨[], same ▸ .begins .entry⟩
  | inr made =>
    obtain ⟨_, _, culprit, reaches, makes⟩ := made
    obtain ⟨outer, underWay⟩ := reaches.underWay
    exact makes.passes underWay

end Point

end Lox
