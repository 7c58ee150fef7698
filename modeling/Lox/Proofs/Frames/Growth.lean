import Lox.Proofs.Frames.Chain
import Lox.Proofs.Run.Place

/-! What every step leaves of the frames it finds.

A step that ends well is back in its frame and at its depth. It keeps all frames
with their parents and names; an expression gives no frame a new name, and a
statement none but the current one.
-/

set_option autoImplicit false

namespace Lox

namespace OutcomeIn

variable {σ α β : Type} {good : α → σ → Prop} {bad : σ → Prop}

/-- What holds of the state in which a step ends well, and in which it fails. -/
def Ends (outcome : OutcomeIn σ α) (good : α → σ → Prop) (bad : σ → Prop) : Prop :=
  match outcome with
  | .done value state => good value state
  | .failed _ state => bad state
  | .cut _ => True

theorem Ends.bind {outcome : OutcomeIn σ α} {next : α → σ → OutcomeIn σ β}
    {better : β → σ → Prop} (ends : outcome.Ends good bad)
    (goesOn : ∀ {value : α} {state : σ}, good value state → (next value state).Ends better bad) :
    (outcome.bind next).Ends better bad := by
  cases outcome with
  | done value state => exact goesOn ends
  | failed failure state => exact ends
  | exhausted => trivial

theorem Ends.mono {outcome : OutcomeIn σ α} {better : α → σ → Prop} {worse : σ → Prop}
    (ends : outcome.Ends good bad)
    (weakerGood : ∀ {value : α} {state : σ}, good value state → better value state)
    (weakerBad : ∀ {state : σ}, bad state → worse state) : outcome.Ends better worse := by
  cases outcome with
  | done value state => exact weakerGood ends
  | failed failure state => exact weakerBad ends
  | exhausted => trivial

theorem ends_mapState {outcome : OutcomeIn σ α} {change : σ → σ} :
    (outcome.mapState change).Ends good bad ↔
      outcome.Ends (fun value state => good value (change state)) fun state => bad (change state) := by
  cases outcome <;> rfl

theorem ends_ofExcept {result : Except Failure α} {state : σ}
    (ok : ∀ value, result = .ok value → good value state) (error : bad state) :
    (ofExcept result state).Ends good bad := by
  cases result with
  | ok value => exact ok value rfl
  | error failure => exact error

end OutcomeIn

namespace Machine

/-- Back in the same frame, at the same depth, with a grown store. -/
structure Returns (opened : Nat → Prop) (before after : Machine) : Prop where
  frame : after.frame = before.frame
  depth : after.depth = before.depth
  grows : before.store.Grows opened after.store

abbrev Unmoved (before after : Machine) : Prop := Returns (fun _ => False) before after

abbrev Extended (before after : Machine) : Prop := Returns (· = before.frame) before after

variable {machine middle last : Machine} {opened : Nat → Prop}

theorem Returns.refl (machine : Machine) : Returns opened machine machine :=
  ⟨rfl, rfl, .refl _⟩

theorem Unmoved.trans (first : machine.Unmoved middle) (more : middle.Returns opened last) :
    machine.Returns opened last :=
  ⟨more.frame.trans first.frame, more.depth.trans first.depth,
    (first.grows.mono fun _ _ => False.elim).trans more.grows fun _ _ => id⟩

theorem Extended.trans (first : machine.Extended middle) (more : middle.Extended last) :
    machine.Extended last :=
  ⟨more.frame.trans first.frame, more.depth.trans first.depth,
    first.grows.trans more.grows fun _ _ same => same.trans first.frame⟩

theorem Unmoved.extended (unmoved : machine.Unmoved middle) : machine.Extended middle :=
  unmoved.trans (.refl _)

theorem Unmoved.then (first : machine.Unmoved middle) (more : middle.Extended last) :
    machine.Extended last :=
  first.extended.trans more

theorem extended_define (machine : Machine) (name : String) (value : Value) :
    machine.Extended (machine.define name value) :=
  ⟨rfl, rfl, .put value (.inl rfl)⟩

theorem extended_defineClosure (machine : Machine) (name : Token) (params : List Token)
    (body : List Stmt) : machine.Extended (machine.defineClosure name params body) :=
  ⟨rfl, rfl, .put _ (.inl rfl)⟩

theorem extended_defineAll (params : List Token) :
    ∀ (arguments : List Value) (machine : Machine),
      machine.Extended (machine.defineAll params arguments) := by
  induction params with
  | nil => exact fun _ machine => .refl machine
  | cons param params ih =>
    intro arguments machine
    cases arguments with
    | nil => exact .refl machine
    | cons argument arguments =>
      exact (machine.extended_define param.lexeme argument).trans (ih arguments _)

theorem binds_of_locate {lookup : Lookup} {name : Token} {distance : Option Nat} {found : Nat}
    (located : machine.locate lookup name distance = .ok found) :
    machine.store.binds name.lexeme found = true := by
  unfold locate at located
  split at located
  · split at located
    next answer =>
      cases located
      unfold Store.locate at answer
      split at answer
      · cases answer
      · split at answer
        next binds => cases answer; exact binds
        next => cases answer
    next => cases located
  · split at located
    next holder =>
      cases located
      exact List.find?_some holder
    next => cases located

theorem unmoved_replace {found : Nat} {name : String} (value : Value)
    (binds : machine.store.binds name found = true) :
    machine.Unmoved (machine.replace found name value) :=
  ⟨rfl, rfl, .put value (.inr binds)⟩

theorem unmoved_of_enter {parent : Nat}
    (inner : (machine.enter parent).store.Grows (· = machine.store.next) last.store) :
    machine.Unmoved (last.returnTo machine.frame machine.depth) := by
  refine ⟨rfl, rfl, (Store.Grows.add machine.store (some parent)).trans inner ?_⟩
  -- The only frame that gets names is the new one.
  intro id old new
  exact absurd old (new ▸ Nat.lt_irrefl _)

theorem extended_enterCall (machine : Machine) (function : Closure) (arguments : List Value) :
    { machine.enter function.env with depth := machine.depth + 1 }.Extended
      (machine.enterCall function arguments) :=
  extended_defineAll function.params arguments _

end Machine

def CompletionIn.values {α : Type} : CompletionIn α → List α
  | .normal => []
  | .returned value => [value]

structure GrowsWith (rules : Rules) (fuel : Nat) : Prop where
  evaluate : ∀ expr machine, (evaluate rules fuel expr machine).Ends
    (fun _ after => machine.Unmoved after) fun _ => True
  evaluateAll : ∀ exprs machine, (evaluateAll rules fuel exprs machine).Ends
    (fun _ after => machine.Unmoved after) fun _ => True
  call : ∀ callee arguments line machine, (call rules fuel callee arguments line machine).Ends
    (fun _ after => machine.Unmoved after) fun _ => True
  execute : ∀ stmt machine, (execute rules fuel stmt machine).Ends
    (fun _ after => machine.Extended after) fun _ => True
  executeAll : ∀ stmts machine, (executeAll rules fuel stmts machine).Ends
    (fun _ after => machine.Extended after) fun _ => True
  executeLoop : ∀ condition body machine, (executeLoop rules fuel condition body machine).Ends
    (fun _ after => machine.Extended after) fun _ => True

namespace GrowsWith

variable {rules : Rules} {fuel : Nat}

theorem evaluate_succ (ih : GrowsWith rules fuel) (expr : Expr) (machine : Machine) :
    (Lox.evaluate rules (fuel + 1) expr machine).Ends (fun _ after => machine.Unmoved after)
      fun _ => True := by
  cases expr with
  | literal value => exact .refl machine
  | grouping inner => exact ih.evaluate inner machine
  | unary operator operand =>
    refine (ih.evaluate operand machine).bind fun moved => ?_
    exact OutcomeIn.ends_ofExcept (fun _ _ => moved) trivial
  | binary left operator right =>
    refine (ih.evaluate left machine).bind fun moved => ?_
    refine (ih.evaluate right _).bind fun more => ?_
    exact OutcomeIn.ends_ofExcept (fun _ _ => moved.trans more) trivial
  | logical left operator right =>
    refine (ih.evaluate left machine).bind fun moved => ?_
    split
    · exact moved
    · exact (ih.evaluate right _).mono moved.trans id
  | reference name distance =>
    exact OutcomeIn.ends_ofExcept (fun _ _ => .refl machine) trivial
  | assign name value distance =>
    refine (ih.evaluate value machine).bind fun moved => ?_
    split
    next located => exact moved.trans (Machine.unmoved_replace _ (Machine.binds_of_locate located))
    next => trivial
  | call callee paren arguments =>
    refine (ih.evaluate callee machine).bind fun moved => ?_
    refine (ih.evaluateAll arguments _).bind fun more => ?_
    have both : machine.Unmoved _ := moved.trans more
    exact (ih.call _ _ _ _).mono both.trans id
  | misplaced node => trivial

theorem evaluateAll_succ (ih : GrowsWith rules fuel) (exprs : List Expr) (machine : Machine) :
    (Lox.evaluateAll rules (fuel + 1) exprs machine).Ends (fun _ after => machine.Unmoved after)
      fun _ => True := by
  cases exprs with
  | nil => exact .refl machine
  | cons first others =>
    refine (ih.evaluate first machine).bind fun moved => ?_
    refine (ih.evaluateAll others _).bind fun more => ?_
    exact moved.trans more

theorem call_succ (ih : GrowsWith rules fuel) (callee : Value) (arguments : List Value) (line : Int)
    (machine : Machine) :
    (Lox.call rules (fuel + 1) callee arguments line machine).Ends
      (fun _ after => machine.Unmoved after) fun _ => True := by
  obtain ⟨_, _, called⟩ | ⟨function, rfl, _, called⟩ | ⟨rfl, _, called⟩ :=
    call_cases rules fuel callee arguments line machine
  · rw [called]
    trivial
  · rw [called, OutcomeIn.ends_mapState]
    refine (ih.executeAll function.body _).bind fun {completion after} ran => ?_
    have bound := machine.extended_enterCall function arguments
    exact Machine.unmoved_of_enter (bound.trans ran).grows
  · rw [called]
    exact ⟨rfl, rfl, .refl _⟩

theorem execute_succ (ih : GrowsWith rules fuel) (stmt : Stmt) (machine : Machine) :
    (Lox.execute rules (fuel + 1) stmt machine).Ends (fun _ after => machine.Extended after)
      fun _ => True := by
  cases stmt with
  | expression inner => exact (ih.evaluate inner machine).bind fun moved => moved.extended
  | print inner =>
    refine (ih.evaluate inner machine).bind fun moved => ?_
    exact ⟨moved.frame, moved.depth, moved.extended.grows⟩
  | varDecl name initializer =>
    cases initializer with
    | none => exact machine.extended_define name.lexeme .nil
    | some initializer =>
      refine (ih.evaluate initializer machine).bind fun {value _} moved => ?_
      exact moved.then (Machine.extended_define _ name.lexeme value)
  | block body =>
    rw [execute_block, OutcomeIn.ends_mapState]
    -- What the body binds belongs to its own frame, which is new.
    refine (ih.executeAll body _).mono (fun ran => ?_) id
    exact (Machine.unmoved_of_enter ran.grows).extended
  | conditional condition yes no =>
    refine (ih.evaluate condition machine).bind fun moved => ?_
    split
    · exact (ih.execute yes _).mono moved.then id
    · cases no with
      | none => exact moved.extended
      | some no => exact (ih.execute no _).mono moved.then id
  | loop condition body => exact ih.executeLoop condition body machine
  | funDecl name params body => exact machine.extended_defineClosure name params body
  | ret keyword value =>
    cases value with
    | none => exact .refl machine
    | some value => exact (ih.evaluate value machine).bind fun moved => moved.extended
  | misplaced node => trivial

theorem executeAll_succ (ih : GrowsWith rules fuel) (stmts : List Stmt) (machine : Machine) :
    (Lox.executeAll rules (fuel + 1) stmts machine).Ends (fun _ after => machine.Extended after)
      fun _ => True := by
  cases stmts with
  | nil => exact .refl machine
  | cons first others =>
    refine (ih.execute first machine).bind fun {completion _} ran => ?_
    cases completion with
    | normal => exact (ih.executeAll others _).mono ran.trans id
    | returned value => exact ran

theorem executeLoop_succ (ih : GrowsWith rules fuel) (condition : Expr) (body : Stmt)
    (machine : Machine) :
    (Lox.executeLoop rules (fuel + 1) condition body machine).Ends
      (fun _ after => machine.Extended after) fun _ => True := by
  refine (ih.evaluate condition machine).bind fun moved => ?_
  split
  · refine (ih.execute body _).bind fun {completion _} ran => ?_
    cases completion with
    | normal => exact (ih.executeLoop condition body _).mono (moved.then ran).trans id
    | returned value => exact moved.then ran
  · exact moved.extended

end GrowsWith

/-- Every step leaves the frames as they were but for new names of the current one. -/
theorem growsWith (rules : Rules) (fuel : Nat) : GrowsWith rules fuel := by
  induction fuel with
  | zero => constructor <;> intros <;> trivial
  | succ fuel ih =>
    exact ⟨ih.evaluate_succ, ih.evaluateAll_succ, ih.call_succ, ih.execute_succ,
      ih.executeAll_succ, ih.executeLoop_succ⟩

end Lox
