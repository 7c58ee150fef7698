import Lox.Proofs.Frames.Settled
import Lox.Proofs.Values

/-! Every step of a settled machine leaves a settled machine.

The machine also stands in the regions behind the step, and the values that the
step gives are settled. A step that fails leaves a settled store, wherever the
machine stands.
-/

set_option autoImplicit false

namespace Lox

variable {allowed : Site → Prop} {wholes more most : List (List String)} {opened : Nat → Prop}
  {regions behind : List Region} {before machine after : Machine}

theorem CompletionIn.settled_value {completion : Completion} {store : Store Value}
    (settled : ∀ value ∈ completion.values, value.Settled allowed wholes store) :
    ∀ value ∈ [completion.value], value.Settled allowed wholes store := by
  cases completion with
  | normal => simp [CompletionIn.value, ValueIn.nil, ValueIn.Settled]
  | returned value => exact settled

namespace Machine

/-- A step from `before`, where the frames had the texts `wholes`, to `after`, where
they have the texts `more`. -/
structure Settles (allowed : Site → Prop) (opened : Nat → Prop) (regions : List Region)
    (wholes : List (List String)) (before : Machine) (values : List Value)
    (more : List (List String)) (after : Machine) : Prop where
  layout : wholes <+: more
  stands : after.Stands allowed more regions
  returns : before.Returns opened after
  values : ∀ value ∈ values, value.Settled allowed more after.store

def Sane (allowed : Site → Prop) (machine : Machine) : Prop :=
  ∃ wholes, machine.store.Settled allowed wholes

namespace Settles

variable {values : List Value}

theorem sane (settles : before.Settles allowed opened regions wholes values more after) :
    after.Sane allowed :=
  ⟨more, settles.stands.settled⟩

theorem refl (stands : machine.Stands allowed wholes regions)
    (settled : ∀ value ∈ values, value.Settled allowed wholes machine.store) :
    machine.Settles allowed opened regions wholes values wholes machine :=
  ⟨List.prefix_refl _, stands, .refl machine, settled⟩

theorem trans {others : List Value}
    (first : before.Settles allowed (fun _ => False) regions wholes others more machine)
    (second : machine.Settles allowed opened behind more values most after) :
    before.Settles allowed opened behind wholes values most after :=
  ⟨first.layout.trans second.layout, second.stands, Unmoved.trans first.returns second.returns,
    second.values⟩

theorem extended (settles : before.Settles allowed (fun _ => False) regions wholes values more after)
    {opened : Nat → Prop} : before.Settles allowed opened regions wholes values more after :=
  settles.trans (.refl settles.stands settles.values)

theorem sequence {others : List Value}
    (first : before.Settles allowed (· = before.frame) regions wholes others more machine)
    (second : machine.Settles allowed (· = machine.frame) behind more values most after) :
    before.Settles allowed (· = before.frame) behind wholes values most after :=
  ⟨first.layout.trans second.layout, second.stands, Extended.trans first.returns second.returns,
    second.values⟩

theorem give (settles : before.Settles allowed opened regions wholes values more after)
    {others : List Value} (settled : ∀ value ∈ others, value.Settled allowed more after.store) :
    before.Settles allowed opened regions wholes others more after :=
  ⟨settles.layout, settles.stands, settles.returns, settled⟩

theorem within (settles : before.Settles allowed opened behind wholes values more after)
    (stands : before.Stands allowed wholes regions) :
    before.Settles allowed opened regions wholes values more after :=
  ⟨settles.layout, ⟨settles.stands.settled,
    settles.returns.frame ▸ stands.fits.mono settles.layout settles.returns.grows⟩,
    settles.returns, settles.values⟩

theorem still {others : List Value}
    (second : machine.Settles allowed opened regions more values most after)
    (settled : ∀ value ∈ others, value.Settled allowed more machine.store) :
    ∀ value ∈ others, value.Settled allowed most after.store :=
  fun value member => (settled value member).mono second.layout second.returns.grows

end Settles

end Machine

abbrev ExprSettles (allowed : Site → Prop) (rules : Rules) (fuel : Nat)
    (wholes : List (List String)) (regions : List Region) (expr : Expr) (machine : Machine) : Prop :=
  (evaluate rules fuel expr machine).Ends
    (fun value after => ∃ more,
      machine.Settles allowed (fun _ => False) regions wholes [value] more after)
    (Machine.Sane allowed)

abbrev StmtSettles (allowed : Site → Prop) (rules : Rules) (fuel : Nat)
    (wholes : List (List String)) (behind : List Region) (stmt : Stmt) (machine : Machine) : Prop :=
  (execute rules fuel stmt machine).Ends
    (fun completion after => ∃ more,
      machine.Settles allowed (· = machine.frame) behind wholes completion.values more after)
    (Machine.Sane allowed)

structure SettlesWith (allowed : Site → Prop) (rules : Rules) (fuel : Nat) : Prop where
  evaluate : ∀ {wholes : List (List String)} {regions : List Region} {pending : Option String}
    {expr : Expr} {machine : Machine}, machine.Stands allowed wholes regions →
    expr.EveryUse allowed regions pending → ExprSettles allowed rules fuel wholes regions expr machine
  evaluateAll : ∀ {wholes : List (List String)} {regions : List Region} {pending : Option String}
    {exprs : List Expr} {machine : Machine}, machine.Stands allowed wholes regions →
    Expr.EveryUseIn allowed regions pending exprs →
    (evaluateAll rules fuel exprs machine).Ends
      (fun values after => ∃ more,
        machine.Settles allowed (fun _ => False) regions wholes values more after)
      (Machine.Sane allowed)
  call : ∀ {wholes : List (List String)} {regions : List Region} {callee : Value}
    {arguments : List Value} {line : Int} {machine : Machine},
    machine.Stands allowed wholes regions → callee.Settled allowed wholes machine.store →
    (∀ argument ∈ arguments, argument.Settled allowed wholes machine.store) →
    (call rules fuel callee arguments line machine).Ends
      (fun value after => ∃ more,
        machine.Settles allowed (fun _ => False) regions wholes [value] more after)
      (Machine.Sane allowed)
  execute : ∀ {wholes : List (List String)} {regions : List Region} {stmt : Stmt}
    {machine : Machine}, machine.Stands allowed wholes regions → stmt.Proper →
    stmt.EveryUse allowed regions → (∀ name ∈ stmt.declared, Region.Open regions name) →
    StmtSettles allowed rules fuel wholes (stmt.behind regions) stmt machine
  executeAll : ∀ {wholes : List (List String)} {regions : List Region} {stmts : List Stmt}
    {machine : Machine}, machine.Stands allowed wholes regions → Stmt.AllProper stmts →
    Stmt.EveryUseIn allowed regions stmts →
    (∀ name ∈ Stmt.declaredIn stmts, Region.Open regions name) →
    (executeAll rules fuel stmts machine).Ends
      (fun completion after => ∃ more, machine.Settles allowed (· = machine.frame) regions wholes
        completion.values more after)
      (Machine.Sane allowed)
  executeLoop : ∀ {wholes : List (List String)} {regions : List Region} {condition : Expr}
    {body : Stmt} {machine : Machine}, machine.Stands allowed wholes regions →
    condition.EveryUse allowed regions none → body.Proper → body.declared = [] →
    body.EveryUse allowed regions →
    (executeLoop rules fuel condition body machine).Ends
      (fun completion after => ∃ more, machine.Settles allowed (· = machine.frame) regions wholes
        completion.values more after)
      (Machine.Sane allowed)

theorem Store.value?_of_getAt {store : Store Value} {id distance : Nat} {name : String}
    {value : Value} (same : store.getAt id distance name = .ok value) :
    ∃ found, store.value? found name = some value := by
  unfold Store.getAt at same
  split at same
  · cases same
  · split at same
    · cases same
    next found => cases same; exact ⟨_, found⟩

theorem Machine.value?_of_read {lookup : Lookup} {name : Token} {distance : Option Nat}
    {value : Value} (same : machine.read lookup name distance = .ok value) :
    ∃ id, machine.store.value? id name.lexeme = some value := by
  unfold Machine.read at same
  split at same
  · split at same
    next answer => cases same; exact Store.value?_of_getAt answer
    next => cases same
  · split at same
    next answer =>
      cases same
      obtain ⟨holder, _, found⟩ := Option.bind_eq_some_iff.mp answer
      exact ⟨holder, found⟩
    next => cases same

theorem Machine.Settles.leave {parent : Nat} {whole : List String} {values : List Value}
    {inner : Machine} (stands : machine.Stands allowed wholes regions)
    (settles : inner.Settles allowed opened behind (wholes ++ [whole]) values more after)
    (grows : (machine.enter parent).store.Grows (· = machine.store.next) after.store) :
    machine.Settles allowed (fun _ => False) regions wholes values more
      (after.returnTo machine.frame machine.depth) := by
  have layout : wholes <+: more := (List.prefix_append _ _).trans settles.layout
  have returns := Machine.unmoved_of_enter grows
  exact ⟨layout, ⟨settles.stands.settled, stands.fits.mono layout returns.grows⟩, returns,
    settles.values⟩

namespace SettlesWith

variable {rules : Rules} {fuel : Nat} {pending : Option String}

theorem unary_succ (ih : SettlesWith allowed rules fuel) (operator : Token) {operand : Expr}
    (stands : machine.Stands allowed wholes regions)
    (uses : operand.EveryUse allowed regions pending) :
    ExprSettles allowed rules (fuel + 1) wholes regions (.unary operator operand) machine := by
  apply (ih.evaluate stands uses).bind
  rintro value after ⟨more, settles⟩
  refine OutcomeIn.ends_ofExcept (fun result same => ⟨more, settles.give ?_⟩) settles.sane
  obtain ⟨constant, rfl⟩ := Operator.unary_literal same
  simp [ValueIn.Settled]

theorem binary_succ (ih : SettlesWith allowed rules fuel) (operator : Token) {left right : Expr}
    (stands : machine.Stands allowed wholes regions)
    (usesLeft : left.EveryUse allowed regions pending)
    (usesRight : right.EveryUse allowed regions pending) :
    ExprSettles allowed rules (fuel + 1) wholes regions (.binary left operator right) machine := by
  apply (ih.evaluate stands usesLeft).bind
  rintro left middle ⟨more, first⟩
  apply (ih.evaluate first.stands usesRight).bind
  rintro right after ⟨most, second⟩
  refine OutcomeIn.ends_ofExcept (fun result same => ⟨most, ?_⟩) second.sane
  obtain ⟨constant, rfl⟩ := Operator.binary_literal same
  exact (first.trans second).give (by simp [ValueIn.Settled])

theorem assign_succ (ih : SettlesWith allowed rules fuel) (name : Token) (distance : Option Nat)
    {value : Expr} (stands : machine.Stands allowed wholes regions)
    (uses : value.EveryUse allowed regions pending) :
    ExprSettles allowed rules (fuel + 1) wholes regions (.assign name value distance) machine := by
  apply (ih.evaluate stands uses).bind
  rintro value middle ⟨more, settles⟩
  split
  next found located =>
    -- The frame that is found binds the name already, so no frame gets a new one.
    have binds := Machine.binds_of_locate located
    have unmoved := Machine.unmoved_replace value binds
    have settled := (settles.values value (by simp)).mono (List.prefix_refl _) unmoved.grows
    refine ⟨more, settles.trans ⟨List.prefix_refl _, ⟨?_, ?_⟩, unmoved, ?_⟩⟩
    · exact settles.stands.settled.put settled (.inr (.inl binds))
    · exact settles.stands.fits.mono (List.prefix_refl _) unmoved.grows
    · simpa using settled
  next => exact settles.sane

theorem callExpr_succ (ih : SettlesWith allowed rules fuel) (paren : Token) {callee : Expr}
    {arguments : List Expr} (stands : machine.Stands allowed wholes regions)
    (uses : callee.EveryUse allowed regions pending)
    (usesAll : Expr.EveryUseIn allowed regions pending arguments) :
    ExprSettles allowed rules (fuel + 1) wholes regions (.call callee paren arguments) machine := by
  apply (ih.evaluate stands uses).bind
  rintro callee middle ⟨more, first⟩
  apply (ih.evaluateAll first.stands usesAll).bind
  rintro arguments later ⟨most, second⟩
  -- The callee is older than the arguments, and the store has grown since.
  have settledCallee := second.still first.values callee (by simp)
  refine (ih.call second.stands settledCallee second.values).mono ?_ id
  rintro value after ⟨last, third⟩
  exact ⟨last, first.trans (second.trans third)⟩

theorem evaluate_succ (ih : SettlesWith allowed rules fuel) {expr : Expr}
    (stands : machine.Stands allowed wholes regions) (uses : expr.EveryUse allowed regions pending) :
    ExprSettles allowed rules (fuel + 1) wholes regions expr machine := by
  -- What takes no step leaves all as it was.
  have constant : ∀ {value : Value}, value.Settled allowed wholes machine.store →
      ∃ more, machine.Settles allowed (fun _ => False) regions wholes [value] more machine :=
    fun settled => ⟨wholes, .refl stands (by simpa using settled)⟩
  cases expr with
  | literal value => exact constant trivial
  | grouping inner => exact ih.evaluate stands uses
  | unary operator operand => exact ih.unary_succ operator stands uses
  | binary left operator right => exact ih.binary_succ operator stands uses.1 uses.2
  | logical left operator right =>
    apply (ih.evaluate stands uses.1).bind
    rintro left middle ⟨more, first⟩
    split
    · exact ⟨more, first⟩
    · refine (ih.evaluate first.stands uses.2).mono ?_ id
      rintro right after ⟨most, second⟩
      exact ⟨most, first.trans second⟩
  | reference name distance =>
    -- What can be read has been bound, and what is bound is settled.
    refine OutcomeIn.ends_ofExcept (fun value same => ?_) ⟨wholes, stands.settled⟩
    obtain ⟨id, read⟩ := Machine.value?_of_read same
    exact constant (stands.settled.values read)
  | assign name value distance => exact ih.assign_succ name distance stands uses.1
  | call callee paren arguments => exact ih.callExpr_succ paren stands uses.1 uses.2
  | misplaced node => exact ⟨wholes, stands.settled⟩

theorem evaluateAll_succ (ih : SettlesWith allowed rules fuel) {exprs : List Expr}
    (stands : machine.Stands allowed wholes regions)
    (uses : Expr.EveryUseIn allowed regions pending exprs) :
    (Lox.evaluateAll rules (fuel + 1) exprs machine).Ends
      (fun values after => ∃ more,
        machine.Settles allowed (fun _ => False) regions wholes values more after)
      (Machine.Sane allowed) := by
  cases exprs with
  | nil => exact ⟨wholes, .refl stands (by simp)⟩
  | cons first others =>
    apply (ih.evaluate stands uses.1).bind
    rintro value middle ⟨more, one⟩
    apply (ih.evaluateAll one.stands uses.2).bind
    rintro values after ⟨most, rest⟩
    have settled := rest.still one.values value (by simp)
    exact ⟨most, (one.trans rest).give (List.forall_mem_cons.mpr ⟨settled, rest.values⟩)⟩

theorem call_succ (ih : SettlesWith allowed rules fuel) {callee : Value} {arguments : List Value}
    {line : Int} (stands : machine.Stands allowed wholes regions)
    (settled : callee.Settled allowed wholes machine.store)
    (settledAll : ∀ argument ∈ arguments, argument.Settled allowed wholes machine.store) :
    (Lox.call rules (fuel + 1) callee arguments line machine).Ends
      (fun value after => ∃ more,
        machine.Settles allowed (fun _ => False) regions wholes [value] more after)
      (Machine.Sane allowed) := by
  obtain ⟨_, _, called⟩ | ⟨function, rfl, accepted, called⟩ | ⟨rfl, _, called⟩ :=
    call_cases rules fuel callee arguments line machine
  · rw [called]
    exact ⟨wholes, stands.settled⟩
  · -- The regions around the body are those of the declaration, wherever it is called.
    obtain ⟨around, fits, proper, uses⟩ := settled
    have entered := Machine.Stands.enterCall stands.settled fits settledAll
      (Rules.length_eq_of_refusal? accepted)
    rw [called, OutcomeIn.ends_mapState]
    apply OutcomeIn.Ends.bind (ih.executeAll entered proper uses Region.open_ofFunction)
    rintro completion after ⟨more, settles⟩
    have grows := (machine.extended_enterCall function arguments).trans settles.returns
    exact ⟨more, (settles.give (CompletionIn.settled_value settles.values)).leave stands grows.grows⟩
  · rw [called]
    exact ⟨wholes, List.prefix_refl _, ⟨stands.settled, stands.fits⟩, ⟨rfl, rfl, .refl _⟩,
      by simp [ValueIn.Settled, ValueIn.number]⟩

/-- A branch that declares nothing leaves the regions as they are. -/
theorem execute_branch (ih : SettlesWith allowed rules fuel) {stmt : Stmt}
    (stands : machine.Stands allowed wholes regions) (proper : stmt.Proper)
    (nothing : stmt.declared = []) (uses : stmt.EveryUse allowed regions) :
    StmtSettles allowed rules fuel wholes regions stmt machine := by
  have ends := ih.execute stands proper uses (Region.open_of_nothing nothing)
  rwa [Stmt.behind_eq nothing] at ends

theorem print_succ (ih : SettlesWith allowed rules fuel) {inner : Expr}
    (stands : machine.Stands allowed wholes regions)
    (uses : inner.EveryUse allowed regions none) :
    StmtSettles allowed rules (fuel + 1) wholes regions (.print inner) machine := by
  apply (ih.evaluate stands uses).bind
  rintro value after ⟨more, settles⟩
  have extended : machine.Settles allowed (· = machine.frame) regions wholes [value] more after :=
    settles.extended
  exact ⟨more, extended.layout, ⟨extended.stands.settled, extended.stands.fits⟩,
    ⟨extended.returns.frame, extended.returns.depth, extended.returns.grows⟩,
    by simp [CompletionIn.values]⟩

theorem varDecl_succ (ih : SettlesWith allowed rules fuel) (name : Token)
    {initializer : Option Expr} (stands : machine.Stands allowed wholes regions)
    (uses : (Stmt.varDecl name initializer).EveryUse allowed regions)
    (declared : Region.Open regions name.lexeme) :
    StmtSettles allowed rules (fuel + 1) wholes ((Stmt.varDecl name initializer).behind regions)
      (.varDecl name initializer) machine := by
  cases initializer with
  | none =>
    exact ⟨wholes, List.prefix_refl _, stands.define trivial declared,
      machine.extended_define name.lexeme .nil, by simp [CompletionIn.values]⟩
  | some initializer =>
    have usesInitializer : initializer.EveryUse allowed regions (Region.pending? regions name) :=
      uses
    apply (ih.evaluate stands usesInitializer).bind
    rintro value middle ⟨more, settles⟩
    have defined := settles.stands.define (settles.values value (by simp)) declared
    exact ⟨more, settles.trans ⟨List.prefix_refl _, defined,
      settles.returns.frame ▸ Machine.extended_define middle name.lexeme value,
      by simp [CompletionIn.values]⟩⟩

theorem conditional_succ (ih : SettlesWith allowed rules fuel) {condition : Expr} {yes : Stmt}
    {no : Option Stmt} (stands : machine.Stands allowed wholes regions)
    (proper : (Stmt.conditional condition yes no).Proper)
    (uses : (Stmt.conditional condition yes no).EveryUse allowed regions) :
    StmtSettles allowed rules (fuel + 1) wholes regions (.conditional condition yes no) machine := by
  obtain ⟨⟨_, usesCondition⟩, branches⟩ := Stmt.parts_of_conditional proper uses
  apply (ih.evaluate stands usesCondition).bind
  rintro value middle ⟨more, first⟩
  have taken : ∀ branch ∈ yes :: no.toList, (Lox.execute rules fuel branch middle).Ends
      (fun completion after => ∃ more, machine.Settles allowed (· = machine.frame) regions wholes
        completion.values more after)
      (Machine.Sane allowed) := by
    intro branch member
    obtain ⟨properBranch, nothing, usesBranch⟩ := branches branch member
    refine (ih.execute_branch first.stands properBranch nothing usesBranch).mono ?_ id
    rintro completion after ⟨most, second⟩
    exact ⟨most, first.extended.sequence second⟩
  split
  · exact taken yes List.mem_cons_self
  · cases no with
    | none => exact ⟨more, first.extended.give (by simp [CompletionIn.values])⟩
    | some no => exact taken no (by simp)

theorem funDecl_succ (name : Token) (params : List Token) {body : List Stmt}
    (stands : machine.Stands allowed wholes regions) (proper : Stmt.AllProper body)
    (uses : (Stmt.funDecl name params body).EveryUse allowed regions)
    (declared : Region.Open regions name.lexeme) :
    StmtSettles allowed rules (fuel + 1) wholes ((Stmt.funDecl name params body).behind regions)
      (.funDecl name params body) machine := by
  -- The closure is settled only once its own name is bound.
  have settled : (ValueIn.closure ⟨machine.closures, name, params, body, machine.frame⟩).Settled
      allowed wholes (machine.define name.lexeme
        (.closure ⟨machine.closures, name, params, body, machine.frame⟩)).store :=
    ⟨Region.declare name regions, stands.fits.define _, proper, uses⟩
  have defined := stands.defineIn settled declared
  exact ⟨wholes, List.prefix_refl _, ⟨defined.settled, defined.fits⟩,
    machine.extended_defineClosure name params body, by simp [CompletionIn.values]⟩

theorem execute_succ (ih : SettlesWith allowed rules fuel) {stmt : Stmt}
    (stands : machine.Stands allowed wholes regions) (proper : stmt.Proper)
    (uses : stmt.EveryUse allowed regions) (opens : ∀ name ∈ stmt.declared, Region.Open regions name) :
    StmtSettles allowed rules (fuel + 1) wholes (stmt.behind regions) stmt machine := by
  cases stmt with
  | expression inner =>
    have usesInner : inner.EveryUse allowed regions none := uses
    apply (ih.evaluate stands usesInner).bind
    rintro value after ⟨more, settles⟩
    exact ⟨more, settles.extended.give (by simp [CompletionIn.values])⟩
  | print inner => exact ih.print_succ stands uses
  | varDecl name initializer =>
    exact ih.varDecl_succ name stands uses (opens name.lexeme (by simp [Stmt.declared]))
  | block body =>
    rw [StmtSettles, execute_block, OutcomeIn.ends_mapState]
    refine (ih.executeAll (stands.enterBlock body) proper uses Region.open_ofBlock).mono ?_ id
    rintro completion after ⟨more, settles⟩
    exact ⟨more, (settles.leave stands settles.returns.grows).extended⟩
  | conditional condition yes no => exact ih.conditional_succ stands proper uses
  | loop condition body => exact ih.executeLoop stands uses.1 proper.2.1 proper.2.2 uses.2
  | funDecl name params body =>
    exact funDecl_succ name params stands proper uses (opens name.lexeme (by simp [Stmt.declared]))
  | ret keyword value =>
    cases value with
    | none => exact ⟨wholes, .refl stands (by simp [CompletionIn.values, ValueIn.nil, ValueIn.Settled])⟩
    | some value =>
      have usesValue : value.EveryUse allowed regions none := uses
      apply (ih.evaluate stands usesValue).bind
      rintro value after ⟨more, settles⟩
      exact ⟨more, settles.extended⟩
  | misplaced node => exact ⟨wholes, stands.settled⟩

theorem executeAll_succ (ih : SettlesWith allowed rules fuel) {stmts : List Stmt}
    (stands : machine.Stands allowed wholes regions) (proper : Stmt.AllProper stmts)
    (uses : Stmt.EveryUseIn allowed regions stmts)
    (opens : ∀ name ∈ Stmt.declaredIn stmts, Region.Open regions name) :
    (Lox.executeAll rules (fuel + 1) stmts machine).Ends
      (fun completion after => ∃ more, machine.Settles allowed (· = machine.frame) regions wholes
        completion.values more after)
      (Machine.Sane allowed) := by
  cases stmts with
  | nil => exact ⟨wholes, .refl stands (by simp [CompletionIn.values])⟩
  | cons first others =>
    apply (ih.execute stands proper.1 uses.1 (Region.open_first opens)).bind
    rintro completion middle ⟨more, one⟩
    cases completion with
    | normal =>
      refine (ih.executeAll one.stands proper.2 uses.2 (Region.open_others opens)).mono ?_ id
      rintro completion after ⟨most, rest⟩
      -- Behind the statements there are more names, so the regions before them fit as well.
      exact ⟨most, (one.sequence rest).within stands⟩
    | returned value => exact ⟨more, one.within stands⟩

theorem executeLoop_succ (ih : SettlesWith allowed rules fuel) {condition : Expr} {body : Stmt}
    (stands : machine.Stands allowed wholes regions)
    (usesCondition : condition.EveryUse allowed regions none) (proper : body.Proper)
    (nothing : body.declared = []) (uses : body.EveryUse allowed regions) :
    (Lox.executeLoop rules (fuel + 1) condition body machine).Ends
      (fun completion after => ∃ more, machine.Settles allowed (· = machine.frame) regions wholes
        completion.values more after)
      (Machine.Sane allowed) := by
  apply (ih.evaluate stands usesCondition).bind
  rintro value middle ⟨more, first⟩
  split
  · apply (ih.execute_branch first.stands proper nothing uses).bind
    rintro completion later ⟨most, second⟩
    have both := first.extended.sequence second
    cases completion with
    | normal =>
      refine (ih.executeLoop second.stands usesCondition proper nothing uses).mono ?_ id
      rintro completion after ⟨last, third⟩
      exact ⟨last, both.sequence third⟩
    | returned value => exact ⟨most, both⟩
  · exact ⟨more, first.extended.give (by simp [CompletionIn.values])⟩

end SettlesWith

/-- A settled machine stays settled, whatever runs. -/
theorem settlesWith (allowed : Site → Prop) (rules : Rules) (fuel : Nat) :
    SettlesWith allowed rules fuel := by
  induction fuel with
  | zero => constructor <;> intros <;> trivial
  | succ fuel ih =>
    exact ⟨ih.evaluate_succ, ih.evaluateAll_succ, ih.call_succ, ih.execute_succ,
      ih.executeAll_succ, ih.executeLoop_succ⟩

end Lox
