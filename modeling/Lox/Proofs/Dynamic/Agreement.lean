import Lox.Proofs.Dynamic.Erasure
import Lox.Proofs.Dynamic.Lookup
import Lox.Proofs.Run.Stands

/-! Dynamic look-up agrees with distances where nothing is shadowed.

A step that looks names up by their distances and then loses the distances comes to
where the same step under dynamic look-up comes to from a machine without distances.
Both take the same fuel, so also an endless run prints the same lines.
-/

set_option autoImplicit false

namespace Lox

def Rules.dynamic (rules : Rules) : Rules := { rules with lookup := .dynamic }

variable {rules : Rules} {fuel : Nat} {wholes : List (List String)} {regions : List Region}
  {pending : Option String} {machine : Machine}

/-- An expression comes to the same value without distances, under dynamic look-up. -/
abbrev ExprErases (rules : Rules) (fuel : Nat) (expr : Expr) (machine : Machine) : Prop :=
  (evaluate rules fuel expr machine).map ValueIn.erase Machine.erase =
    evaluate rules.dynamic fuel expr.erase machine.erase

/-- A statement completes in the same way without distances, under dynamic look-up. -/
abbrev StmtErases (rules : Rules) (fuel : Nat) (stmt : Stmt) (machine : Machine) : Prop :=
  (execute rules fuel stmt machine).map CompletionIn.erase Machine.erase =
    execute rules.dynamic fuel stmt.erase machine.erase

structure ErasesWith (rules : Rules) (fuel : Nat) : Prop where
  evaluate : ∀ {wholes : List (List String)} {regions : List Region} {pending : Option String}
    {expr : Expr} {machine : Machine}, machine.Stands Site.Sole wholes regions →
    expr.EveryUse Site.Sole regions pending → ExprErases rules fuel expr machine
  evaluateAll : ∀ {wholes : List (List String)} {regions : List Region} {pending : Option String}
    {exprs : List Expr} {machine : Machine}, machine.Stands Site.Sole wholes regions →
    Expr.EveryUseIn Site.Sole regions pending exprs →
    (evaluateAll rules fuel exprs machine).map (List.map ValueIn.erase) Machine.erase =
      evaluateAll rules.dynamic fuel (Expr.eraseAll exprs) machine.erase
  call : ∀ {wholes : List (List String)} {regions : List Region} {callee : Value}
    {arguments : List Value} {line : Int} {machine : Machine},
    machine.Stands Site.Sole wholes regions → callee.Settled Site.Sole wholes machine.store →
    (∀ argument ∈ arguments, argument.Settled Site.Sole wholes machine.store) →
    (call rules fuel callee arguments line machine).map ValueIn.erase Machine.erase =
      call rules.dynamic fuel callee.erase (arguments.map ValueIn.erase) line machine.erase
  execute : ∀ {wholes : List (List String)} {regions : List Region} {stmt : Stmt}
    {machine : Machine}, machine.Stands Site.Sole wholes regions → stmt.Proper →
    stmt.EveryUse Site.Sole regions → (∀ name ∈ stmt.declared, Region.Open regions name) →
    StmtErases rules fuel stmt machine
  executeAll : ∀ {wholes : List (List String)} {regions : List Region} {stmts : List Stmt}
    {machine : Machine}, machine.Stands Site.Sole wholes regions → Stmt.AllProper stmts →
    Stmt.EveryUseIn Site.Sole regions stmts →
    (∀ name ∈ Stmt.declaredIn stmts, Region.Open regions name) →
    (executeAll rules fuel stmts machine).map CompletionIn.erase Machine.erase =
      executeAll rules.dynamic fuel (Stmt.eraseAll stmts) machine.erase
  executeLoop : ∀ {wholes : List (List String)} {regions : List Region} {condition : Expr}
    {body : Stmt} {machine : Machine}, machine.Stands Site.Sole wholes regions →
    condition.EveryUse Site.Sole regions none → body.Proper → body.declared = [] →
    body.EveryUse Site.Sole regions →
    (executeLoop rules fuel condition body machine).map CompletionIn.erase Machine.erase =
      executeLoop rules.dynamic fuel condition.erase body.erase machine.erase

namespace ErasesWith

theorem binary_succ (ih : ErasesWith rules fuel) (operator : Token) {left right : Expr}
    (stands : machine.Stands Site.Sole wholes regions)
    (uses : left.EveryUse Site.Sole regions pending)
    (usesRight : right.EveryUse Site.Sole regions pending) :
    ExprErases rules (fuel + 1) (.binary left operator right) machine := by
  apply OutcomeIn.map_bind (ih.evaluate stands uses)
  intro first middle ran
  obtain ⟨more, settles⟩ := stands.evaluated uses ran
  apply OutcomeIn.map_bind (ih.evaluate settles.stands usesRight)
  intro second after _
  rw [OutcomeIn.map_ofExcept, Operator.binary_map]

theorem logical_succ (ih : ErasesWith rules fuel) (operator : Token) {left right : Expr}
    (stands : machine.Stands Site.Sole wholes regions)
    (uses : left.EveryUse Site.Sole regions pending)
    (usesRight : right.EveryUse Site.Sole regions pending) :
    ExprErases rules (fuel + 1) (.logical left operator right) machine := by
  apply OutcomeIn.map_bind (ih.evaluate stands uses)
  intro first middle ran
  obtain ⟨more, settles⟩ := stands.evaluated uses ran
  rw [Operator.decides_map]
  split
  · rfl
  · exact ih.evaluate settles.stands usesRight

theorem reference_succ (lexical : rules.lookup = .lexical) {name : Token} {distance : Option Nat}
    (stands : machine.Stands Site.Sole wholes regions)
    (sole : (Expr.reference name distance).EveryUse Site.Sole regions pending) :
    ExprErases rules (fuel + 1) (.reference name distance) machine := by
  -- First without erasing: the walk and the search come to the same value.
  have same : machine.read rules.lookup name distance = machine.read .dynamic name none := by
    rw [lexical]
    exact stands.read_eq sole
  have erased := machine.read_erase .dynamic name
  simp only [ExprErases, Lox.evaluate, Expr.erase, Rules.dynamic, same, erased,
    OutcomeIn.map_ofExcept]

theorem assign_succ (lexical : rules.lookup = .lexical) (ih : ErasesWith rules fuel) {name : Token}
    {value : Expr} {distance : Option Nat} (stands : machine.Stands Site.Sole wholes regions)
    (uses : (Expr.assign name value distance).EveryUse Site.Sole regions pending) :
    ExprErases rules (fuel + 1) (.assign name value distance) machine := by
  apply OutcomeIn.map_bind (ih.evaluate stands uses.1)
  intro result after ran
  obtain ⟨more, settles⟩ := stands.evaluated uses.1 ran
  have same : after.locate rules.lookup name distance = after.locate .dynamic name none := by
    rw [lexical]
    exact settles.stands.locate_eq uses.2
  have erased := after.locate_erase .dynamic name
  simp only [Rules.dynamic, same, erased]
  cases after.locate .dynamic name none with
  | ok found => simp only [OutcomeIn.map, Machine.erase_replace]
  | error failure => rfl

theorem callExpr_succ (ih : ErasesWith rules fuel) (paren : Token) {callee : Expr}
    {arguments : List Expr} (stands : machine.Stands Site.Sole wholes regions)
    (uses : callee.EveryUse Site.Sole regions pending)
    (usesAll : Expr.EveryUseIn Site.Sole regions pending arguments) :
    ExprErases rules (fuel + 1) (.call callee paren arguments) machine := by
  apply OutcomeIn.map_bind (ih.evaluate stands uses)
  intro function middle ran
  obtain ⟨more, first⟩ := stands.evaluated uses ran
  apply OutcomeIn.map_bind (ih.evaluateAll first.stands usesAll)
  intro values later ranAll
  obtain ⟨most, second⟩ := first.stands.evaluatedAll usesAll ranAll
  -- The callee is older than the arguments, and the store has grown since.
  have settledCallee := second.still first.values function (by simp)
  exact ih.call second.stands settledCallee second.values

theorem evaluate_succ (lexical : rules.lookup = .lexical) (ih : ErasesWith rules fuel) {expr : Expr}
    (stands : machine.Stands Site.Sole wholes regions)
    (uses : expr.EveryUse Site.Sole regions pending) :
    ExprErases rules (fuel + 1) expr machine := by
  cases expr with
  | literal value => rfl
  | grouping inner => exact ih.evaluate stands uses
  | unary operator operand =>
    have usesOperand : operand.EveryUse Site.Sole regions pending := uses
    apply OutcomeIn.map_bind (ih.evaluate stands usesOperand)
    intro value after ran
    rw [OutcomeIn.map_ofExcept, Operator.unary_map]
  | binary left operator right => exact ih.binary_succ operator stands uses.1 uses.2
  | logical left operator right => exact ih.logical_succ operator stands uses.1 uses.2
  | reference name distance => exact reference_succ lexical stands uses
  | assign name value distance => exact ih.assign_succ lexical stands uses
  | call callee paren arguments => exact ih.callExpr_succ paren stands uses.1 uses.2
  | misplaced node => rfl

theorem evaluateAll_succ (ih : ErasesWith rules fuel) {exprs : List Expr}
    (stands : machine.Stands Site.Sole wholes regions)
    (uses : Expr.EveryUseIn Site.Sole regions pending exprs) :
    (Lox.evaluateAll rules (fuel + 1) exprs machine).map (List.map ValueIn.erase) Machine.erase =
      Lox.evaluateAll rules.dynamic (fuel + 1) (Expr.eraseAll exprs) machine.erase := by
  cases exprs with
  | nil => rfl
  | cons first others =>
    apply OutcomeIn.map_bind (ih.evaluate stands uses.1)
    intro value middle ran
    obtain ⟨more, settles⟩ := stands.evaluated uses.1 ran
    apply OutcomeIn.map_bind (ih.evaluateAll settles.stands uses.2)
    intro values after _
    rfl

theorem call_succ (ih : ErasesWith rules fuel) {callee : Value} {arguments : List Value} {line : Int}
    (stands : machine.Stands Site.Sole wholes regions)
    (settled : callee.Settled Site.Sole wholes machine.store)
    (settledAll : ∀ argument ∈ arguments, argument.Settled Site.Sole wholes machine.store) :
    (Lox.call rules (fuel + 1) callee arguments line machine).map ValueIn.erase Machine.erase =
      Lox.call rules.dynamic (fuel + 1) callee.erase (arguments.map ValueIn.erase) line
        machine.erase := by
  -- Whether the call is accepted does not depend on distances.
  have asks : rules.dynamic.refusal? callee.erase (arguments.map ValueIn.erase).length
      machine.erase.depth = rules.refusal? callee arguments.length machine.depth := by
    rw [Rules.refusal?_map, List.length_map]
    rfl
  cases refuses : rules.refusal? callee arguments.length machine.depth with
  | some cause =>
    rw [call_of_refused refuses, call_of_refused (asks.trans refuses)]
    rfl
  | none =>
    cases callee with
    | closure function =>
      obtain ⟨around, fits, proper, uses⟩ := settled
      have entered := Machine.Stands.enterCall stands.settled fits settledAll
        (Rules.length_eq_of_refusal? refuses)
      -- The body runs in the regions of its declaration, where nothing is shadowed.
      have body := ih.executeAll entered proper uses Region.open_ofFunction
      rw [Machine.erase_enterCall] at body
      have accepts := asks.trans refuses
      simp only [ValueIn.erase, ValueIn.map] at accepts ⊢
      rw [call_closure rules fuel line refuses, call_closure rules.dynamic fuel line accepts]
      apply OutcomeIn.map_mapState
      · apply OutcomeIn.map_bind body
        intro completion after _
        simp only [OutcomeIn.map, CompletionIn.value_erase]
      · intro after
        rfl
    | native function =>
      cases function
      have accepts := asks.trans refuses
      simp only [ValueIn.erase, ValueIn.map] at accepts ⊢
      rw [Lox.call, Lox.call, refuses, accepts]
      rfl
    | literal value => cases refuses

theorem execute_branch (ih : ErasesWith rules fuel) {stmt : Stmt}
    (stands : machine.Stands Site.Sole wholes regions) (proper : stmt.Proper)
    (nothing : stmt.declared = []) (uses : stmt.EveryUse Site.Sole regions) :
    StmtErases rules fuel stmt machine :=
  ih.execute stands proper uses (Region.open_of_nothing nothing)

theorem varDecl_succ (ih : ErasesWith rules fuel) {name : Token} {initializer : Option Expr}
    (stands : machine.Stands Site.Sole wholes regions)
    (uses : (Stmt.varDecl name initializer).EveryUse Site.Sole regions) :
    StmtErases rules (fuel + 1) (.varDecl name initializer) machine := by
  cases initializer with
  | none =>
    simp only [StmtErases, Lox.execute, Stmt.erase, OutcomeIn.map, Machine.erase_define]
    rfl
  | some initializer =>
    have usesInitializer :
        initializer.EveryUse Site.Sole regions (Region.pending? regions name) := uses
    apply OutcomeIn.map_bind (ih.evaluate stands usesInitializer)
    intro value after _
    simp only [OutcomeIn.map, Machine.erase_define]
    rfl

theorem conditional_succ (ih : ErasesWith rules fuel) {condition : Expr} {yes : Stmt}
    {no : Option Stmt} (stands : machine.Stands Site.Sole wholes regions)
    (proper : (Stmt.conditional condition yes no).Proper)
    (uses : (Stmt.conditional condition yes no).EveryUse Site.Sole regions) :
    StmtErases rules (fuel + 1) (.conditional condition yes no) machine := by
  obtain ⟨⟨_, usesCondition⟩, branches⟩ := Stmt.parts_of_conditional proper uses
  unfold StmtErases
  rw [Stmt.erase_conditional]
  apply OutcomeIn.map_bind (ih.evaluate stands usesCondition)
  intro value middle ran
  obtain ⟨more, first⟩ := stands.evaluated usesCondition ran
  have taken : ∀ branch ∈ yes :: no.toList, StmtErases rules fuel branch middle := by
    intro branch member
    obtain ⟨properBranch, nothing, usesBranch⟩ := branches branch member
    exact ih.execute_branch first.stands properBranch nothing usesBranch
  rw [ValueIn.truthy_map]
  split
  · exact taken yes List.mem_cons_self
  · cases no with
    | none => rfl
    | some no => exact taken no (by simp)

theorem execute_succ (ih : ErasesWith rules fuel) {stmt : Stmt}
    (stands : machine.Stands Site.Sole wholes regions) (proper : stmt.Proper)
    (uses : stmt.EveryUse Site.Sole regions)
    (opens : ∀ name ∈ stmt.declared, Region.Open regions name) :
    StmtErases rules (fuel + 1) stmt machine := by
  cases stmt with
  | expression inner =>
    have usesInner : inner.EveryUse Site.Sole regions none := uses
    apply OutcomeIn.map_bind (ih.evaluate stands usesInner)
    intro value after _
    rfl
  | print inner =>
    have usesInner : inner.EveryUse Site.Sole regions none := uses
    apply OutcomeIn.map_bind (ih.evaluate stands usesInner)
    intro value after _
    rw [ValueIn.display_map]
    rfl
  | varDecl name initializer => exact ih.varDecl_succ stands uses
  | block body =>
    have inside := ih.executeAll (stands.enterBlock body) proper uses Region.open_ofBlock
    rw [Machine.erase_enter] at inside
    unfold StmtErases
    rw [execute_block, Stmt.erase, execute_block]
    exact OutcomeIn.map_mapState inside fun after => rfl
  | conditional condition yes no => exact ih.conditional_succ stands proper uses
  | loop condition body => exact ih.executeLoop stands uses.1 proper.2.1 proper.2.2 uses.2
  | funDecl name params body =>
    simp only [StmtErases, Lox.execute, Stmt.erase, OutcomeIn.map, Machine.erase_defineClosure]
    rfl
  | ret keyword value =>
    cases value with
    | none => rfl
    | some value =>
      have usesValue : value.EveryUse Site.Sole regions none := uses
      apply OutcomeIn.map_bind (ih.evaluate stands usesValue)
      intro result after _
      rfl
  | misplaced node => rfl

theorem executeAll_succ (ih : ErasesWith rules fuel) {stmts : List Stmt}
    (stands : machine.Stands Site.Sole wholes regions) (proper : Stmt.AllProper stmts)
    (uses : Stmt.EveryUseIn Site.Sole regions stmts)
    (opens : ∀ name ∈ Stmt.declaredIn stmts, Region.Open regions name) :
    (Lox.executeAll rules (fuel + 1) stmts machine).map CompletionIn.erase Machine.erase =
      Lox.executeAll rules.dynamic (fuel + 1) (Stmt.eraseAll stmts) machine.erase := by
  cases stmts with
  | nil => rfl
  | cons first others =>
    apply OutcomeIn.map_bind (ih.execute stands proper.1 uses.1 (Region.open_first opens))
    intro completion middle ran
    cases completion with
    | normal =>
      obtain ⟨more, settles⟩ := stands.executed proper.1 uses.1 (Region.open_first opens) ran
      exact ih.executeAll settles.stands proper.2 uses.2 (Region.open_others opens)
    | returned value => rfl

theorem executeLoop_succ (ih : ErasesWith rules fuel) {condition : Expr} {body : Stmt}
    (stands : machine.Stands Site.Sole wholes regions)
    (usesCondition : condition.EveryUse Site.Sole regions none) (proper : body.Proper)
    (nothing : body.declared = []) (uses : body.EveryUse Site.Sole regions) :
    (Lox.executeLoop rules (fuel + 1) condition body machine).map CompletionIn.erase Machine.erase =
      Lox.executeLoop rules.dynamic (fuel + 1) condition.erase body.erase machine.erase := by
  apply OutcomeIn.map_bind (ih.evaluate stands usesCondition)
  intro value middle ran
  obtain ⟨more, first⟩ := stands.evaluated usesCondition ran
  rw [ValueIn.truthy_map]
  split
  · apply OutcomeIn.map_bind (ih.execute_branch first.stands proper nothing uses)
    intro completion later ranBody
    cases completion with
    | normal =>
      obtain ⟨most, second⟩ :=
        first.stands.executed proper uses (Region.open_of_nothing nothing) ranBody
      rw [Stmt.behind_eq nothing] at second
      exact ih.executeLoop second.stands usesCondition proper nothing uses
    | returned value => rfl
  · rfl

end ErasesWith

/-- Every step agrees with dynamic look-up. -/
theorem erasesWith (lexical : rules.lookup = .lexical) (fuel : Nat) : ErasesWith rules fuel := by
  induction fuel with
  | zero => constructor <;> intros <;> rfl
  | succ fuel ih =>
    constructor
    · exact ih.evaluate_succ lexical
    · exact ih.evaluateAll_succ
    · exact ih.call_succ
    · exact ih.execute_succ
    · exact ih.executeAll_succ
    · exact ih.executeLoop_succ

end Lox
