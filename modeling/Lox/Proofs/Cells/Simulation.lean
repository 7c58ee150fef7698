import Lox.Proofs.Cells.Mirror
import Lox.Proofs.Run.Pairs

/-! Every step of a machine is mirrored by the same step on cells.

With the same fuel both end in the same way: with values that agree, with the same
failure, or without fuel, and then they have printed the same lines.
-/

set_option autoImplicit false

namespace Lox

namespace OutcomeIn

variable {σ τ α β γ δ : Type} {good : α → σ → β → τ → Prop} {bad cut : σ → τ → Prop}

def Both (outcome : OutcomeIn σ α) (other : OutcomeIn τ β) (good : α → σ → β → τ → Prop)
    (bad cut : σ → τ → Prop) : Prop :=
  match outcome, other with
  | .done value state, .done second mirror => good value state second mirror
  | .failed failure state, .failed second mirror => failure = second ∧ bad state mirror
  | .cut state, .cut mirror => cut state mirror
  | _, _ => False

theorem both_iff_pairs {outcome : OutcomeIn σ α} {other : OutcomeIn τ β} :
    outcome.Both other good bad cut ↔
      Pairs good (fun failure state second mirror => failure = second ∧ bad state mirror) cut outcome
        other := by
  constructor
  · intro both
    cases outcome with
    | done value state =>
      cases other with
      | done second mirror => exact .done both
      | _ => exact both.elim
    | failed failure state =>
      cases other with
      | failed second mirror => exact .failed both
      | _ => exact both.elim
    | exhausted =>
      cases other with
      | exhausted => exact .exhausted both
      | _ => exact both.elim
  · intro pairs
    cases pairs with
    | done holds => exact holds
    | failed fails => exact fails
    | exhausted ends => exact ends

theorem Both.bind {outcome : OutcomeIn σ α} {other : OutcomeIn τ β}
    {next : α → σ → OutcomeIn σ γ} {otherNext : β → τ → OutcomeIn τ δ}
    {better : γ → σ → δ → τ → Prop} (both : outcome.Both other good bad cut)
    (goesOn : ∀ {value : α} {state : σ} {second : β} {mirror : τ}, good value state second mirror →
      (next value state).Both (otherNext second mirror) better bad cut) :
    (outcome.bind next).Both (other.bind otherNext) better bad cut :=
  both_iff_pairs.mpr ((both_iff_pairs.mp both).bind fun _ _ holds => both_iff_pairs.mp (goesOn holds))

theorem Both.mono {outcome : OutcomeIn σ α} {other : OutcomeIn τ β}
    {better : α → σ → β → τ → Prop} (both : outcome.Both other good bad cut)
    (weaker : ∀ {value : α} {state : σ} {second : β} {mirror : τ}, good value state second mirror →
      better value state second mirror) : outcome.Both other better bad cut :=
  both_iff_pairs.mpr ((both_iff_pairs.mp both).mono weaker id)

theorem Both.mapState {outcome : OutcomeIn σ α} {other : OutcomeIn τ β} {change : σ → σ}
    {otherChange : τ → τ} {worse : σ → τ → Prop}
    (both : outcome.Both other
      (fun value state second mirror => good value (change state) second (otherChange mirror)) bad cut)
    (changeBad : ∀ {state : σ} {mirror : τ}, bad state mirror →
      worse (change state) (otherChange mirror))
    (changeCut : ∀ {state : σ} {mirror : τ}, cut state mirror →
      cut (change state) (otherChange mirror)) :
    (outcome.mapState change).Both (other.mapState otherChange) good worse cut :=
  both_iff_pairs.mpr ((both_iff_pairs.mp both).mapState
    (fun fails => ⟨fails.1, changeBad fails.2⟩) changeCut)

theorem both_ofExcept {result : Except Failure α} {second : Except Failure β} {state : σ} {mirror : τ}
    {relates : α → β → Prop} (results : Cells.Results relates result second)
    (ok : ∀ {value : α} {other : β}, relates value other → good value state other mirror)
    (error : bad state mirror) :
    (ofExcept result state).Both (ofExcept second mirror) good bad cut := by
  cases results with
  | ok related => exact ok related
  | error failure => exact ⟨rfl, error⟩

end OutcomeIn

namespace Cells

variable {places more most : Places} {opened : Nat → Prop} {regions behind : List Region}
  {before machine after : Machine} {state after' : State}

/-- A step from `before`, where the cells had the places `places`, and its mirror image,
after which they have the places `more`. -/
structure Follows (opened : Nat → Prop) (regions : List Region) (places : Places)
    (before : Machine) (values : List Lox.Value) (others : List Value) (more : Places)
    (after : Machine) (after' : State) : Prop where
  layout : places <+: more
  mirrors : Mirrors more regions after after'
  returns : before.Returns opened after
  agree : List.Forall₂ (Agrees more after.store) values others

namespace Follows

variable {values : List Lox.Value} {others : List Value}

theorem refl (mirrors : Mirrors places regions machine state)
    (agree : List.Forall₂ (Agrees places machine.store) values others) :
    Follows opened regions places machine values others places machine state :=
  ⟨List.prefix_refl _, mirrors, .refl machine, agree⟩

theorem trans {earlier : List Lox.Value} {mirrored : List Value}
    (first : Follows (fun _ => False) regions places before earlier mirrored more machine state)
    (second : Follows opened behind more machine values others most after after') :
    Follows opened behind places before values others most after after' :=
  ⟨first.layout.trans second.layout, second.mirrors,
    Machine.Unmoved.trans first.returns second.returns, second.agree⟩

theorem extended
    (step : Follows (fun _ => False) regions places before values others more after after') :
    Follows opened regions places before values others more after after' :=
  step.trans (.refl step.mirrors step.agree)

theorem sequence {earlier : List Lox.Value} {mirrored : List Value}
    (first : Follows (· = before.frame) regions places before earlier mirrored more machine state)
    (second : Follows (· = machine.frame) behind more machine values others most after after') :
    Follows (· = before.frame) behind places before values others most after after' :=
  ⟨first.layout.trans second.layout, second.mirrors,
    Machine.Extended.trans first.returns second.returns, second.agree⟩

theorem give {given : List Lox.Value} {mirrored : List Value}
    (step : Follows opened regions places before values others more after after')
    (agree : List.Forall₂ (Agrees more after.store) given mirrored) :
    Follows opened regions places before given mirrored more after after' :=
  ⟨step.layout, step.mirrors, step.returns, agree⟩

theorem still {earlier : List Lox.Value} {mirrored : List Value}
    (second : Follows opened regions more machine values others most after after')
    (agree : List.Forall₂ (Agrees more machine.store) earlier mirrored) :
    List.Forall₂ (Agrees most after.store) earlier mirrored :=
  List.Forall₂.imp (fun _ _ agrees => agrees.mono second.layout second.returns.grows) agree

theorem leave {parent : Nat} {inner : Machine}
    (mirrors : Mirrors places regions machine state)
    (step : Follows opened behind places inner values others more after after')
    (grows : (machine.enter parent).store.Grows (· = machine.store.next) after.store) :
    Follows (fun _ => False) regions places machine values others more
      (after.returnTo machine.frame machine.depth) (after'.returnTo state.env state.depth) := by
  have unmoved := Machine.unmoved_of_enter grows
  have matched := step.mirrors.matched
  exact ⟨step.layout, mirrors.unmoved step.layout unmoved
    ⟨matched.memory, matched.printed, matched.closures, matched.readings⟩ rfl rfl, unmoved,
    step.agree⟩

end Follows

def Mirrored {α β : Type} (outcome : Outcome α) (other : OutcomeIn State β)
    (good : α → Machine → β → State → Prop) : Prop :=
  outcome.Both other good (fun machine state => ∃ places, Matches places machine state)
    fun machine state => machine.printed = state.printed

theorem Mirrored.leave {α β : Type} {outcome : Outcome α} {other : OutcomeIn State β}
    {frame depth depth' : Nat} {env : Env} {good : α → Machine → β → State → Prop}
    (mirrored : Mirrored outcome other fun value after second after' =>
      good value (after.returnTo frame depth) second (after'.returnTo env depth')) :
    Mirrored (outcome.mapState (·.returnTo frame depth)) (other.mapState (·.returnTo env depth'))
      good := by
  refine OutcomeIn.Both.mapState mirrored ?_ id
  rintro machine state ⟨places, matched⟩
  exact ⟨places, matched.memory, matched.printed, matched.closures, matched.readings⟩

abbrev ExprMirrored (rules : Rules) (fuel : Nat) (places : Places) (regions : List Region)
    (expr : Expr) (machine : Machine) (state : State) : Prop :=
  Mirrored (Lox.evaluate rules fuel expr machine) (Cells.evaluate rules fuel expr.erase state)
    fun value after other after' => ∃ more,
      Follows (fun _ => False) regions places machine [value] [other] more after after'

/-- A statement is mirrored by its image, and leaves certain regions behind. -/
abbrev StmtMirrored (rules : Rules) (fuel : Nat) (places : Places) (behind : List Region)
    (stmt : Stmt) (machine : Machine) (state : State) : Prop :=
  Mirrored (Lox.execute rules fuel stmt machine) (Cells.execute rules fuel stmt.erase state)
    fun completion after other after' => ∃ more, Follows (· = machine.frame) behind places machine
      completion.values other.values more after after'

structure MirrorsWith (rules : Rules) (fuel : Nat) : Prop where
  evaluate : ∀ {places : Places} {regions : List Region} {pending : Option String} {expr : Expr}
    {machine : Machine} {state : State}, Mirrors places regions machine state →
    expr.EveryUse Site.Exact regions pending →
    ExprMirrored rules fuel places regions expr machine state
  evaluateAll : ∀ {places : Places} {regions : List Region} {pending : Option String}
    {exprs : List Expr} {machine : Machine} {state : State},
    Mirrors places regions machine state → Expr.EveryUseIn Site.Exact regions pending exprs →
    Mirrored (Lox.evaluateAll rules fuel exprs machine)
      (Cells.evaluateAll rules fuel (Expr.eraseAll exprs) state)
      fun values after others after' => ∃ more,
        Follows (fun _ => False) regions places machine values others more after after'
  call : ∀ {places : Places} {regions : List Region} {callee : Lox.Value} {other : Value}
    {arguments : List Lox.Value} {others : List Value} {line : Int} {machine : Machine}
    {state : State}, Mirrors places regions machine state →
    Agrees places machine.store callee other →
    List.Forall₂ (Agrees places machine.store) arguments others →
    Mirrored (Lox.call rules fuel callee arguments line machine)
      (Cells.call rules fuel other others line state)
      fun value after other after' => ∃ more,
        Follows (fun _ => False) regions places machine [value] [other] more after after'
  execute : ∀ {places : Places} {regions : List Region} {stmt : Stmt} {machine : Machine}
    {state : State}, Mirrors places regions machine state → stmt.Proper →
    stmt.EveryUse Site.Exact regions →
    StmtMirrored rules fuel places (stmt.behind regions) stmt machine state
  executeAll : ∀ {places : Places} {regions : List Region} {stmts : List Stmt} {machine : Machine}
    {state : State}, Mirrors places regions machine state → Stmt.AllProper stmts →
    Stmt.EveryUseIn Site.Exact regions stmts →
    Mirrored (Lox.executeAll rules fuel stmts machine)
      (Cells.executeAll rules fuel (Stmt.eraseAll stmts) state)
      fun completion after other after' => ∃ more behind, Follows (· = machine.frame)
        behind places machine completion.values other.values more after after'
  executeLoop : ∀ {places : Places} {regions : List Region} {condition : Expr} {body : Stmt}
    {machine : Machine} {state : State}, Mirrors places regions machine state →
    condition.EveryUse Site.Exact regions none → body.Proper → body.declared = [] →
    body.EveryUse Site.Exact regions →
    Mirrored (Lox.executeLoop rules fuel condition body machine)
      (Cells.executeLoop rules fuel condition.erase body.erase state)
      fun completion after other after' => ∃ more, Follows (· = machine.frame) regions places
        machine completion.values other.values more after after'

namespace MirrorsWith

variable {rules : Rules} {fuel : Nat} {pending : Option String} {expr : Expr}

theorem unary_succ (ih : MirrorsWith rules fuel) (operator : Token) {operand : Expr}
    (mirrors : Mirrors places regions machine state)
    (uses : operand.EveryUse Site.Exact regions pending) :
    ExprMirrored rules (fuel + 1) places regions (.unary operator operand) machine state := by
  apply (ih.evaluate mirrors uses).bind
  rintro value after other after' ⟨more, step⟩
  cases step.agree with
  | cons agrees _ =>
    exact OutcomeIn.both_ofExcept (agrees.unary operator)
      (fun agrees => ⟨more, step.give (.cons agrees .nil)⟩) ⟨more, step.mirrors.matched⟩

theorem binary_succ (ih : MirrorsWith rules fuel) (operator : Token) {left right : Expr}
    (mirrors : Mirrors places regions machine state)
    (usesLeft : left.EveryUse Site.Exact regions pending)
    (usesRight : right.EveryUse Site.Exact regions pending) :
    ExprMirrored rules (fuel + 1) places regions (.binary left operator right) machine state := by
  apply (ih.evaluate mirrors usesLeft).bind
  rintro left middle other middle' ⟨more, first⟩
  apply (ih.evaluate first.mirrors usesRight).bind
  rintro right after second after' ⟨most, step⟩
  -- The left operand still agrees after the right one.
  cases step.still first.agree with
  | cons agrees _ =>
    cases step.agree with
    | cons agreesRight _ =>
      exact OutcomeIn.both_ofExcept (agrees.binary agreesRight operator)
        (fun agrees => ⟨most, (first.trans step).give (.cons agrees .nil)⟩)
        ⟨most, step.mirrors.matched⟩

theorem logical_succ (ih : MirrorsWith rules fuel) (operator : Token) {left right : Expr}
    (mirrors : Mirrors places regions machine state)
    (usesLeft : left.EveryUse Site.Exact regions pending)
    (usesRight : right.EveryUse Site.Exact regions pending) :
    ExprMirrored rules (fuel + 1) places regions (.logical left operator right) machine state := by
  apply (ih.evaluate mirrors usesLeft).bind
  rintro left middle other middle' ⟨more, first⟩
  cases first.agree with
  | cons agrees _ =>
    have same : Operator.decides operator other = Operator.decides operator left := by
      unfold Operator.decides
      rw [agrees.truthy_eq]
    rw [same]
    split
    · exact ⟨more, first⟩
    · apply (ih.evaluate first.mirrors usesRight).mono
      rintro right after second after' ⟨most, step⟩
      exact ⟨most, first.trans step⟩

theorem assign_succ (ih : MirrorsWith rules fuel) (lexical : rules.lookup = .lexical) (name : Token)
    {value : Expr} {distance : Option Nat} (mirrors : Mirrors places regions machine state)
    (uses : (Expr.assign name value distance).EveryUse Site.Exact regions pending) :
    ExprMirrored rules (fuel + 1) places regions (.assign name value distance) machine state := by
  apply (ih.evaluate mirrors uses.1).bind
  rintro value middle other middle' ⟨more, step⟩
  cases step.agree with
  | cons agrees _ =>
    have assigned := step.mirrors.assign uses.2 agrees
    rw [← lexical] at assigned
    -- What `assigned` says of both answers is all that is needed of them.
    generalize located : middle.locate rules.lookup name distance = result at assigned ⊢
    generalize middle'.assign name other = second at assigned ⊢
    cases assigned with
    | ok replaced =>
      have unmoved := Machine.unmoved_replace value (Machine.binds_of_locate located)
      exact ⟨more, step.trans ⟨List.prefix_refl _, replaced, unmoved,
        .cons (agrees.mono (List.prefix_refl _) unmoved.grows) .nil⟩⟩
    | error failure => exact ⟨rfl, more, step.mirrors.matched⟩

theorem callExpr_succ (ih : MirrorsWith rules fuel) (paren : Token) {callee : Expr}
    {arguments : List Expr} (mirrors : Mirrors places regions machine state)
    (uses : callee.EveryUse Site.Exact regions pending)
    (usesAll : Expr.EveryUseIn Site.Exact regions pending arguments) :
    ExprMirrored rules (fuel + 1) places regions (.call callee paren arguments) machine state := by
  apply (ih.evaluate mirrors uses).bind
  rintro callee middle other middle' ⟨more, first⟩
  apply (ih.evaluateAll first.mirrors usesAll).bind
  rintro arguments later others later' ⟨most, second⟩
  cases second.still first.agree with
  | cons agrees _ =>
    apply (ih.call second.mirrors agrees second.agree).mono
    rintro value after other after' ⟨last, third⟩
    exact ⟨last, first.trans (second.trans third)⟩

theorem evaluate_succ (ih : MirrorsWith rules fuel) (lexical : rules.lookup = .lexical)
    (mirrors : Mirrors places regions machine state)
    (uses : expr.EveryUse Site.Exact regions pending) :
    ExprMirrored rules (fuel + 1) places regions expr machine state := by
  have start : ∃ places, Matches places machine state := ⟨places, mirrors.matched⟩
  cases expr with
  | literal value => exact ⟨places, .refl mirrors (.cons (.literal value) .nil)⟩
  | grouping inner =>
    have usesInner : inner.EveryUse Site.Exact regions pending := uses
    exact ih.evaluate mirrors usesInner
  | unary operator operand => exact ih.unary_succ operator mirrors uses
  | binary left operator right => exact ih.binary_succ operator mirrors uses.1 uses.2
  | logical left operator right => exact ih.logical_succ operator mirrors uses.1 uses.2
  | reference name distance =>
    have read := mirrors.read uses
    rw [← lexical] at read
    exact OutcomeIn.both_ofExcept read
      (fun agrees => ⟨places, .refl mirrors (.cons agrees .nil)⟩) start
  | assign name value distance => exact ih.assign_succ lexical name mirrors uses
  | call callee paren arguments => exact ih.callExpr_succ paren mirrors uses.1 uses.2
  | misplaced node => exact ⟨rfl, start⟩

theorem evaluateAll_succ (ih : MirrorsWith rules fuel) {exprs : List Expr}
    (mirrors : Mirrors places regions machine state)
    (uses : Expr.EveryUseIn Site.Exact regions pending exprs) :
    Mirrored (Lox.evaluateAll rules (fuel + 1) exprs machine)
      (Cells.evaluateAll rules (fuel + 1) (Expr.eraseAll exprs) state)
      fun values after others after' => ∃ more,
        Follows (fun _ => False) regions places machine values others more after after' := by
  cases exprs with
  | nil => exact ⟨places, .refl mirrors .nil⟩
  | cons first others =>
    apply (ih.evaluate mirrors uses.1).bind
    rintro value middle other middle' ⟨more, one⟩
    apply (ih.evaluateAll one.mirrors uses.2).bind
    rintro values after others after' ⟨most, rest⟩
    cases rest.still one.agree with
    | cons agrees _ => exact ⟨most, (one.trans rest).give (.cons agrees rest.agree)⟩

theorem call_succ (ih : MirrorsWith rules fuel) {callee : Lox.Value} {other : Value}
    {arguments : List Lox.Value} {others : List Value} {line : Int}
    (mirrors : Mirrors places regions machine state) (agrees : Agrees places machine.store callee other)
    (agree : List.Forall₂ (Agrees places machine.store) arguments others) :
    Mirrored (Lox.call rules (fuel + 1) callee arguments line machine)
      (Cells.call rules (fuel + 1) other others line state)
      fun value after other after' => ∃ more,
        Follows (fun _ => False) regions places machine [value] [other] more after after' := by
  have start : ∃ places, Matches places machine state := ⟨places, mirrors.matched⟩
  have same : rules.refusal? other others.length state.depth =
      rules.refusal? callee arguments.length machine.depth := by
    unfold Rules.refusal?
    rw [agrees.arity?_eq, agree.length_eq, mirrors.depth]
  cases refused : rules.refusal? callee arguments.length machine.depth with
  | some cause =>
    rw [Lox.call_of_refused refused, Cells.call_of_refused (same.trans refused)]
    exact ⟨rfl, start⟩
  | none =>
    have accepted := same.trans refused
    cases agrees with
    | literal constant => cases refused
    | native function =>
      cases function
      rw [Lox.call, Cells.call, refused, accepted]
      have matched := mirrors.matched
      dsimp only
      rw [matched.readings]
      exact ⟨places, List.prefix_refl _, ⟨⟨matched.memory, matched.printed, matched.closures, rfl⟩,
        mirrors.depth, mirrors.lies, mirrors.names, mirrors.full⟩, ⟨rfl, rfl, .refl _⟩,
        .cons (.literal _) .nil⟩
    | @closure function env around lies names proper uses =>
      rw [call_closure rules fuel line refused, Cells.call, accepted]
      -- A new frame on one side, a new scope on the other, both inside those of the closure.
      obtain ⟨more, layout, entered⟩ := mirrors.enterCall lies names agree
        (Rules.length_eq_of_refusal? refused)
      have bound := machine.extended_enterCall function arguments
      refine Mirrored.leave (OutcomeIn.Both.bind (ih.executeAll entered proper uses) ?_)
      rintro completion after other after' ⟨most, behind, step⟩
      have inner : Follows _ behind places _ completion.values other.values most after after' :=
        ⟨layout.trans step.layout, step.mirrors, bound.trans step.returns, step.agree⟩
      have handed := CompletionIn.related_value (.literal .nil) inner.agree
      exact ⟨most, (inner.give handed).leave mirrors inner.returns.grows⟩

theorem execute_branch (ih : MirrorsWith rules fuel) {stmt : Stmt}
    (mirrors : Mirrors places regions machine state) (proper : stmt.Proper)
    (nothing : stmt.declared = []) (uses : stmt.EveryUse Site.Exact regions) :
    StmtMirrored rules fuel places regions stmt machine state := by
  have mirrored := ih.execute mirrors proper uses
  rwa [Stmt.behind_eq nothing] at mirrored

theorem print_succ (ih : MirrorsWith rules fuel) {inner : Expr}
    (mirrors : Mirrors places regions machine state)
    (uses : inner.EveryUse Site.Exact regions none) :
    StmtMirrored rules (fuel + 1) places regions (.print inner) machine state := by
  apply (ih.evaluate mirrors uses).bind
  rintro value after other after' ⟨more, step⟩
  cases step.agree with
  | cons agrees _ =>
    have matched := step.mirrors.matched
    have returns : machine.Extended after := Machine.Unmoved.extended step.returns
    refine ⟨more, step.layout, ⟨⟨matched.memory, ?_, matched.closures, matched.readings⟩,
      step.mirrors.depth, step.mirrors.lies, step.mirrors.names, step.mirrors.full⟩,
      ⟨returns.frame, returns.depth, returns.grows⟩, .nil⟩
    unfold Machine.print State.print
    rw [matched.printed, agrees.display_eq]

theorem varDecl_succ (ih : MirrorsWith rules fuel) (name : Token) {initializer : Option Expr}
    (mirrors : Mirrors places regions machine state)
    (uses : (Stmt.varDecl name initializer).EveryUse Site.Exact regions) :
    StmtMirrored rules (fuel + 1) places ((Stmt.varDecl name initializer).behind regions)
      (.varDecl name initializer) machine state := by
  cases initializer with
  | none =>
    obtain ⟨more, layout, declared⟩ := mirrors.declare (.literal .nil)
    exact ⟨more, layout, declared, machine.extended_define name.lexeme .nil, .nil⟩
  | some initializer =>
    have usesInitializer :
        initializer.EveryUse Site.Exact regions (Region.pending? regions name) := uses
    apply (ih.evaluate mirrors usesInitializer).bind
    rintro value middle other middle' ⟨more, step⟩
    cases step.agree with
    | cons agrees _ =>
      obtain ⟨most, layout, declared⟩ := step.mirrors.declare agrees
      exact ⟨most, step.trans ⟨layout, declared,
        step.returns.frame ▸ middle.extended_define name.lexeme value, .nil⟩⟩

theorem block_succ (ih : MirrorsWith rules fuel) {body : List Stmt}
    (mirrors : Mirrors places regions machine state) (proper : Stmt.AllProper body)
    (uses : Stmt.EveryUseIn Site.Exact (Region.ofBlock body :: regions) body) :
    StmtMirrored rules (fuel + 1) places regions (.block body) machine state := by
  unfold StmtMirrored
  rw [execute_block, Stmt.erase, Cells.execute]
  apply Mirrored.leave
  have entered : Mirrors places (Region.ofBlock body :: regions) (machine.enter machine.frame)
      (state.enter state.env) :=
    .enter _ mirrors.matched mirrors.lies mirrors.names mirrors.depth
  apply (ih.executeAll entered proper uses).mono
  rintro completion after other after' ⟨more, behind, step⟩
  exact ⟨more, (step.leave mirrors step.returns.grows).extended⟩

theorem conditional_succ (ih : MirrorsWith rules fuel) {condition : Expr} {yes : Stmt}
    {no : Option Stmt} (mirrors : Mirrors places regions machine state)
    (proper : (Stmt.conditional condition yes no).Proper)
    (uses : (Stmt.conditional condition yes no).EveryUse Site.Exact regions) :
    StmtMirrored rules (fuel + 1) places regions (.conditional condition yes no) machine state := by
  obtain ⟨⟨_, usesCondition⟩, branches⟩ := Stmt.parts_of_conditional proper uses
  unfold StmtMirrored
  rw [Stmt.erase_conditional]
  apply (ih.evaluate mirrors usesCondition).bind
  rintro value middle other middle' ⟨more, first⟩
  -- Both branches declare nothing, so either one leaves the regions as they are.
  have taken : ∀ branch ∈ yes :: no.toList,
      Mirrored (Lox.execute rules fuel branch middle) (Cells.execute rules fuel branch.erase middle')
        fun completion after other after' => ∃ more, Follows (· = machine.frame) regions places
          machine completion.values other.values more after after' := by
    intro branch member
    obtain ⟨properBranch, nothing, usesBranch⟩ := branches branch member
    apply (ih.execute_branch first.mirrors properBranch nothing usesBranch).mono
    rintro completion after other after' ⟨most, second⟩
    exact ⟨most, first.extended.sequence second⟩
  cases first.agree with
  | cons agrees _ =>
    rw [agrees.truthy_eq]
    split
    · exact taken yes List.mem_cons_self
    · cases no with
      | none => exact ⟨more, first.extended.give .nil⟩
      | some no => exact taken no (by simp)

theorem funDecl_succ (name : Token) (params : List Token) {body : List Stmt}
    (mirrors : Mirrors places regions machine state) (proper : Stmt.AllProper body)
    (uses : (Stmt.funDecl name params body).EveryUse Site.Exact regions) :
    StmtMirrored rules (fuel + 1) places ((Stmt.funDecl name params body).behind regions)
      (.funDecl name params body) machine state := by
  -- The closure lies in the environment that already has its name.
  have agrees : Mirrors.AgreesBound places machine state name
      (.closure ⟨machine.closures, name, params, body, machine.frame⟩)
      (.closure ⟨state.closures, name, params, Stmt.eraseAll body,
        state.env.declare name.lexeme state.cells.length⟩) := by
    intro more layout lies
    rw [← mirrors.matched.closures]
    exact .closure lies (mirrors.names.declare name _) proper uses
  obtain ⟨more, layout, declared⟩ := mirrors.declareIn agrees
  have matched := declared.matched
  exact ⟨more, layout, ⟨⟨matched.memory, matched.printed,
    congrArg (· + 1) mirrors.matched.closures, matched.readings⟩, declared.depth, declared.lies,
    declared.names, declared.full⟩, machine.extended_defineClosure name params body, .nil⟩

theorem execute_succ (ih : MirrorsWith rules fuel) {stmt : Stmt}
    (mirrors : Mirrors places regions machine state) (proper : stmt.Proper)
    (uses : stmt.EveryUse Site.Exact regions) :
    StmtMirrored rules (fuel + 1) places (stmt.behind regions) stmt machine state := by
  cases stmt with
  | expression inner =>
    have usesInner : inner.EveryUse Site.Exact regions none := uses
    apply (ih.evaluate mirrors usesInner).bind
    rintro value after other after' ⟨more, step⟩
    exact ⟨more, step.extended.give .nil⟩
  | print inner => exact ih.print_succ mirrors uses
  | varDecl name initializer => exact ih.varDecl_succ name mirrors uses
  | block body => exact ih.block_succ mirrors proper uses
  | conditional condition yes no => exact ih.conditional_succ mirrors proper uses
  | loop condition body => exact ih.executeLoop mirrors uses.1 proper.2.1 proper.2.2 uses.2
  | funDecl name params body => exact funDecl_succ name params mirrors proper uses
  | ret keyword value =>
    cases value with
    | none => exact ⟨places, .refl mirrors (.cons (.literal .nil) .nil)⟩
    | some value =>
      have usesValue : value.EveryUse Site.Exact regions none := uses
      apply (ih.evaluate mirrors usesValue).bind
      rintro value after other after' ⟨more, step⟩
      exact ⟨more, step.extended⟩
  | misplaced node => exact ⟨rfl, places, mirrors.matched⟩

theorem executeAll_succ (ih : MirrorsWith rules fuel) {stmts : List Stmt}
    (mirrors : Mirrors places regions machine state) (proper : Stmt.AllProper stmts)
    (uses : Stmt.EveryUseIn Site.Exact regions stmts) :
    Mirrored (Lox.executeAll rules (fuel + 1) stmts machine)
      (Cells.executeAll rules (fuel + 1) (Stmt.eraseAll stmts) state)
      fun completion after other after' => ∃ more behind, Follows (· = machine.frame)
        behind places machine completion.values other.values more after after' := by
  cases stmts with
  | nil => exact ⟨places, regions, .refl mirrors .nil⟩
  | cons first others =>
    apply (ih.execute mirrors proper.1 uses.1).bind
    rintro completion middle other middle' ⟨more, one⟩
    rcases CompletionIn.cases_of_values one.agree with ⟨rfl, rfl⟩ | ⟨value, other, rfl, rfl, _⟩
    · apply (ih.executeAll one.mirrors proper.2 uses.2).mono
      rintro completion after other after' ⟨most, behind, rest⟩
      exact ⟨most, behind, one.sequence rest⟩
    · exact ⟨more, _, one⟩

theorem executeLoop_succ (ih : MirrorsWith rules fuel) {condition : Expr} {body : Stmt}
    (mirrors : Mirrors places regions machine state)
    (usesCondition : condition.EveryUse Site.Exact regions none) (proper : body.Proper)
    (nothing : body.declared = []) (uses : body.EveryUse Site.Exact regions) :
    Mirrored (Lox.executeLoop rules (fuel + 1) condition body machine)
      (Cells.executeLoop rules (fuel + 1) condition.erase body.erase state)
      fun completion after other after' => ∃ more, Follows (· = machine.frame) regions places
        machine completion.values other.values more after after' := by
  apply (ih.evaluate mirrors usesCondition).bind
  rintro value middle other middle' ⟨more, first⟩
  cases first.agree with
  | cons agrees _ =>
    rw [agrees.truthy_eq]
    split
    · apply (ih.execute_branch first.mirrors proper nothing uses).bind
      rintro completion later other later' ⟨most, second⟩
      have both := first.extended.sequence second
      rcases CompletionIn.cases_of_values second.agree with ⟨rfl, rfl⟩ | ⟨value, other, rfl, rfl, _⟩
      · apply (ih.executeLoop second.mirrors usesCondition proper nothing uses).mono
        rintro completion after other after' ⟨last, third⟩
        exact ⟨last, both.sequence third⟩
      · exact ⟨most, both⟩
    · exact ⟨more, first.extended.give .nil⟩

end MirrorsWith

/-- Whatever a machine does that resolves its names, cells do the same. -/
theorem mirrorsWith {rules : Rules} (lexical : rules.lookup = .lexical) (fuel : Nat) :
    MirrorsWith rules fuel := by
  induction fuel with
  -- Without fuel both stop at once, with the lines that they have printed before.
  | zero =>
    constructor
    case evaluate => exact fun mirrors _ => mirrors.matched.printed
    case evaluateAll => exact fun mirrors _ => mirrors.matched.printed
    case call => exact fun mirrors _ _ => mirrors.matched.printed
    case execute => exact fun mirrors _ _ => mirrors.matched.printed
    case executeAll => exact fun mirrors _ _ => mirrors.matched.printed
    case executeLoop => exact fun mirrors _ _ _ _ => mirrors.matched.printed
  | succ fuel ih =>
    exact ⟨ih.evaluate_succ lexical, ih.evaluateAll_succ, ih.call_succ, ih.execute_succ,
      ih.executeAll_succ, ih.executeLoop_succ⟩

end Cells

end Lox
