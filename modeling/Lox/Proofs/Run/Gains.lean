import Lox.Proofs.Run.Rooted

/-! What the changes of a run do to the graph of frames.

A change keeps all frames with their names in order. It gives a new name to the current
frame if a declaration makes it, or to the new frame of a call if the call binds its
parameters; an assignment gives one binding another value.
-/

set_option autoImplicit false

namespace Lox

namespace Task

def given : Task → List Value
  | .call callee arguments _ => callee :: arguments
  | _ => []

def values : (task : Task) → task.Answer → List Value
  | .evaluate _, value | .call .., value => [value]
  | .evaluateAll _, values => values
  | .execute _, completion | .executeAll _, completion | .executeLoop .., completion =>
    CompletionIn.values completion

def assigned? : Task → Option Token
  | .evaluate (.assign name _ _) => some name
  | _ => none

end Task

namespace Point

variable {rules : Rules} {fuel : Nat} {point next : Point} {before machine after : Machine}

/-- The machine is rooted, and so are the values that the task begins with. -/
structure Rooted (point : Point) : Prop where
  machine : point.machine.Rooted
  values : ∀ value ∈ point.task.given, value.Rooted point.machine.store

theorem Rooted.plain {task : Task} (rooted : machine.Rooted) (nothing : task.given = []) :
    Rooted ⟨task, fuel, machine⟩ :=
  ⟨rooted, by simp [nothing]⟩

/-- A task at a rooted point stops in a rooted machine and gives rooted values. -/
theorem Rooted.roots (rooted : point.Rooted) (rules : Rules) :
    (point.task.run rules point.fuel point.machine).Roots point.machine point.task.values := by
  obtain ⟨task, fuel, machine⟩ := point
  obtain ⟨rooted, values⟩ := rooted
  have all := rootsWith rules fuel
  cases task with
  | evaluate expr => exact all.evaluate rooted
  | evaluateAll exprs => exact all.evaluateAll rooted
  | call callee arguments line =>
    obtain ⟨rootedCallee, rootedAll⟩ := List.forall_mem_cons.mp values
    exact all.call rooted rootedCallee rootedAll
  | execute stmt => exact all.execute rooted
  | executeAll stmts => exact all.executeAll rooted
  | executeLoop condition body => exact all.executeLoop rooted

theorem Rooted.evaluated {expr : Expr} {value : Value} (rooted : machine.Rooted)
    (ran : evaluate rules fuel expr machine = .done value after) : machine.Carries [value] after :=
  ((rootsWith rules fuel).evaluate rooted).of_done ran

theorem Rooted.evaluatedAll {exprs : List Expr} {values : List Value} (rooted : machine.Rooted)
    (ran : evaluateAll rules fuel exprs machine = .done values after) :
    machine.Carries values after :=
  ((rootsWith rules fuel).evaluateAll rooted).of_done ran

theorem Rooted.executed {stmt : Stmt} {completion : Completion} (rooted : machine.Rooted)
    (ran : execute rules fuel stmt machine = .done completion after) :
    machine.Carries completion.values after :=
  ((rootsWith rules fuel).execute rooted).of_done ran

theorem Rooted.entered {function : Closure} {arguments : List Value} {line : Int}
    (rooted : Rooted ⟨.call (.closure function) arguments line, fuel, machine⟩) :
    machine.Carries [] (machine.enterCall function arguments) := by
  obtain ⟨rootedCallee, rootedAll⟩ := List.forall_mem_cons.mp rooted.values
  exact rooted.machine.carries_enterCall rootedCallee rootedAll

theorem Rooted.step (rooted : point.Rooted) (starts : Starts rules point next) : next.Rooted := by
  cases starts with
  | binaryRight ran => exact .plain (evaluated rooted.machine ran).rooted rfl
  | logicalRight ran _ => exact .plain (evaluated rooted.machine ran).rooted rfl
  | arguments ran => exact .plain (evaluated rooted.machine ran).rooted rfl
  | call ran ranAll =>
    have first := evaluated rooted.machine ran
    have second := evaluatedAll first.rooted ranAll
    refine ⟨second.rooted, List.forall_mem_cons.mpr ⟨?_, second.values⟩⟩
    exact second.still first.values _ (by simp)
  | otherExprs ran => exact .plain (evaluated rooted.machine ran).rooted rfl
  | body _ => exact .plain rooted.entered.rooted rfl
  | block => exact .plain (rooted.machine.enter rooted.machine.frame) rfl
  | yes ran _ => exact .plain (evaluated rooted.machine ran).rooted rfl
  | no ran _ => exact .plain (evaluated rooted.machine ran).rooted rfl
  | otherStmts ran => exact .plain (executed rooted.machine ran).rooted rfl
  | loopBody ran _ => exact .plain (evaluated rooted.machine ran).rooted rfl
  | loopAgain ran _ went =>
    exact .plain (executed (evaluated rooted.machine ran).rooted went).rooted rfl
  | _ => exact .plain rooted.machine rfl

theorem Rooted.reach (rooted : point.Rooted) (reaches : Reaches rules point next) : next.Rooted := by
  induction reaches with
  | refl => exact rooted
  | tail _ starts ih => exact ih.step starts

/-! ### Changes -/

/-- Which new name a task may give to which frame: a declaration its own to the current
one, and a call those of its parameters to the one that it makes. -/
def Names (point : Point) (before : Machine) (id : Nat) (name : String) : Prop :=
  match point.task with
  | .execute (.varDecl token _) | .execute (.funDecl token _ _) =>
    id = before.frame ∧ name = token.lexeme
  | .call (.closure function) _ _ =>
    id = point.machine.store.next ∧ ∃ param ∈ function.params, name = param.lexeme
  | _ => False

/-- A change that a task may make to the graph of frames. -/
structure Alters (point : Point) (before after : Machine) : Prop where
  found : before.Rooted
  left : after.Rooted
  grows : before.store.Extends after.store
  gains : ∀ id name, before.store.Gains after.store id name → point.Names before id name
  assigns : ∀ name ∈ point.task.assigned?,
    ∃ id value, before.store.Replaces id name.lexeme value after.store

theorem Alters.plain (found : before.Rooted) (left : after.Rooted)
    (grows : before.store.Extends after.store)
    (gains : ∀ id name, before.store.Gains after.store id name → point.Names before id name)
    (nothing : point.task.assigned? = none) :
    point.Alters before after :=
  ⟨found, left, grows, gains, by simp [nothing]⟩

theorem Alters.returnTo {depth : Nat} (rooted : machine.Rooted) (carries : machine.Carries [] before)
    (nothing : point.task.assigned? = none) :
    point.Alters before (before.returnTo machine.frame depth) :=
  .plain carries.rooted
    (carries.rooted.returnTo (rooted.frame.mono carries.grows carries.rooted.store)) (.refl _)
    (fun _ _ gains => absurd gains Store.not_gains_self) nothing

theorem Alters.define {name : Token} {value : Value} (rooted : before.Rooted)
    (rootedValue : value.Rooted before.store)
    (names : ∀ id other, id = before.frame ∧ other = name.lexeme → point.Names before id other)
    (nothing : point.task.assigned? = none) :
    point.Alters before (before.define name.lexeme value) :=
  .plain rooted (rooted.define name.lexeme rootedValue) (.put ..)
    (fun id found gains => names id found (Store.gains_put gains)) nothing

theorem Makes.alters (makes : Makes rules point before after) (rooted : point.Rooted) :
    point.Alters before after := by
  cases makes with
  | @assign _ _ _ _ _ _ result _ ran located =>
    have carries := Rooted.evaluated rooted.machine ran
    -- The frame that is found binds the name already, so nothing is gained.
    have replaces := Store.replaces_put result (Machine.binds_of_locate located)
    refine ⟨carries.rooted, carries.rooted.replace _ _ (carries.values _ (by simp)), .put .., ?_, ?_⟩
    · exact fun id name gains => absurd gains replaces.not_gains
    · rintro _ ⟨⟩
      exact ⟨_, _, replaces⟩
  | openCall _ =>
    have leads := (List.forall_mem_cons.mp rooted.values).1
    exact .plain rooted.machine (rooted.machine.openCall leads) (.add ..)
      (fun _ _ gains => absurd gains Store.not_gains_add) rfl
  | @parameter _ machine function arguments _ bound others param argument _ split =>
    obtain ⟨leads, rootedAll⟩ := List.forall_mem_cons.mp rooted.values
    have carries := rooted.machine.carries_bound leads rootedAll split
    have inZip : (param, argument) ∈ function.params.zip arguments := by simp [split]
    obtain ⟨isParam, isArgument⟩ := List.of_mem_zip inZip
    have rootedArgument := (rootedAll argument isArgument).mono carries.grows carries.rooted.store
    refine .define carries.rooted rootedArgument ?_ rfl
    -- The parameters before this one have left the new frame the current one.
    rintro id name ⟨here, same⟩
    rw [Machine.frame_bindAll] at here
    exact ⟨here, param, isParam, same⟩
  | @leaveCall fuel machine _ function arguments _ _ ran =>
    -- Whatever ran in the body, the frame of the caller still leads out.
    have entered := rooted.entered
    have body : (machine.enterCall function arguments).Carries [] before :=
      ran ▸ ((rootsWith rules fuel).executeAll entered.rooted).1
    exact .returnTo rooted.machine (entered.trans body) rfl
  | clock _ =>
    have ticked := rooted.machine
    exact .plain ticked ⟨ticked.store, ticked.frame, ticked.values⟩ (.refl _)
      (fun _ _ gains => absurd gains Store.not_gains_self) rfl
  | print ran =>
    have carries := Rooted.evaluated rooted.machine ran
    exact .plain carries.rooted ⟨carries.rooted.store, carries.rooted.frame, carries.rooted.values⟩
      (.refl _) (fun _ _ gains => absurd gains Store.not_gains_self) rfl
  | bare => exact .define rooted.machine trivial (fun _ _ => id) rfl
  | initialized ran =>
    have carries := Rooted.evaluated rooted.machine ran
    exact .define carries.rooted (carries.values _ (by simp)) (fun _ _ => id) rfl
  | openBlock =>
    exact .plain rooted.machine (rooted.machine.enter rooted.machine.frame) (.add ..)
      (fun _ _ gains => absurd gains Store.not_gains_add) rfl
  | @leaveBlock fuel machine _ _ ran =>
    have entered := rooted.machine.carries_enter
    have body : (machine.enter machine.frame).Carries [] before :=
      ran ▸ ((rootsWith rules fuel).executeAll entered.rooted).1
    exact .returnTo rooted.machine (entered.trans body) rfl
  | function =>
    exact .plain rooted.machine (rooted.machine.defineClosure ..) (.put ..)
      (fun _ _ => Store.gains_put) rfl

end Point

end Lox
