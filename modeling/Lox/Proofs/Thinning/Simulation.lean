import Lox.Proofs.Thinning.Machines

/-! Every step of a program, and the same step without some of its scopes.

With the same fuel both end in the same way: with values that go together, with the same
failure, or without fuel. Twins stay twins, and each new frame of the second program is the
twin of a new frame of the first.
-/

set_option autoImplicit false

namespace Lox

variable {twins more most : Twins} {kept around : List Bool}
  {before mirror machine other after after' : Machine} {values others earlier mirrored : List Value}

namespace Machine.Returns

variable {opened : Nat → Prop}

theorem all (returns : machine.Returns opened after) : machine.Returns (fun _ => True) after :=
  ⟨returns.frame, returns.depth, returns.grows.mono fun _ _ _ => trivial⟩

theorem then_all (first : before.Returns (fun _ => True) machine)
    (second : machine.Returns opened after) : before.Returns (fun _ => True) after :=
  ⟨second.frame.trans first.frame, second.depth.trans first.depth,
    first.grows.trans second.grows fun _ _ _ => trivial⟩

end Machine.Returns

structure Machine.StillThinned (twins : Twins) (kept : List Bool) (before mirror : Machine)
    (values others : List Value) (more : Twins) (after after' : Machine) : Prop where
  layout : twins <+: more
  both : after.ThinnedAt more kept after'
  returns : before.Returns (fun _ => True) after
  otherReturns : mirror.Returns (fun _ => True) after'
  alike : List.Forall₂ (ValueIn.Thinned more after.store after'.store) values others

namespace Machine.StillThinned

theorem refl (both : machine.ThinnedAt twins kept other)
    (alike : List.Forall₂ (ValueIn.Thinned twins machine.store other.store) values others) :
    StillThinned twins kept machine other values others twins machine other :=
  ⟨List.prefix_refl _, both, .refl _, .refl _, alike⟩

theorem trans (first : StillThinned twins kept before mirror earlier mirrored more machine other)
    (second : StillThinned more around machine other values others most after after')
    (both : after.ThinnedAt most kept after') :
    StillThinned twins kept before mirror values others most after after' :=
  ⟨first.layout.trans second.layout, both, first.returns.then_all second.returns,
    first.otherReturns.then_all second.otherReturns, second.alike⟩

theorem still (step : StillThinned more kept machine other values others most after after')
    (alike : List.Forall₂ (ValueIn.Thinned more machine.store other.store) earlier mirrored) :
    List.Forall₂ (ValueIn.Thinned most after.store after'.store) earlier mirrored :=
  List.Forall₂.imp
    (fun _ _ alike => alike.mono step.layout step.returns.grows step.otherReturns.grows) alike

end Machine.StillThinned

/-- Two steps end in the same way, from machines whose frames had the twins `twins`. -/
def OutcomeIn.Thinned {α : Type} (twins : Twins) (kept : List Bool) (before mirror : Machine)
    (values : α → List Value) : Outcome α → Outcome α → Prop :=
  OutcomeIn.Pairs
    (fun value after second after' => ∃ more,
      Machine.StillThinned twins kept before mirror (values value) (values second) more after after')
    (fun failure state second state' => second = failure ∧
      ∃ more, twins <+: more ∧ state.Thinned more state')
    fun state state' => state'.printed = state.printed

namespace OutcomeIn.Thinned

variable {α β : Type} {given : α → List Value} {handed : β → List Value}
  {outcome second : Outcome α}

theorem ends {value mirrored : α} (both : machine.ThinnedAt twins kept other)
    (alike : List.Forall₂ (ValueIn.Thinned twins machine.store other.store) (given value)
      (given mirrored)) :
    Thinned twins kept machine other given (.done value machine) (.done mirrored other) :=
  .done ⟨twins, .refl both alike⟩

theorem fails (both : machine.ThinnedAt twins kept other) (failure : Failure) :
    Thinned twins kept machine other given (.failed failure machine) (.failed failure other) :=
  .failed ⟨rfl, twins, List.prefix_refl _, both.thinned⟩

theorem stops (both : machine.ThinnedAt twins kept other) :
    Thinned twins kept machine other given (.cut machine) (.cut other) :=
  .exhausted both.thinned.printed

theorem ofExcept {result answer : Except Failure Value} (both : machine.ThinnedAt twins kept other)
    (results : ResultPairs (ValueIn.Thinned twins machine.store other.store) (· = ·) result answer) :
    Thinned twins kept machine other ([·]) (.ofExcept result machine) (.ofExcept answer other) := by
  cases results with
  | ok alike => exact .ends both (.cons alike .nil)
  | error same =>
    cases same
    exact .fails both _

theorem behind {first firstOther : List Value}
    (step : Machine.StillThinned twins kept before mirror first firstOther more machine other)
    (thinned : Thinned more kept machine other given outcome second) :
    Thinned twins kept before mirror given outcome second :=
  Pairs.mono thinned
    (fun ⟨most, last⟩ => ⟨most, step.trans last last.both⟩)
    fun ⟨same, most, layout, both⟩ => ⟨same, most, step.layout.trans layout, both⟩

theorem bind {next further : α → Machine → Outcome β}
    (thinned : Thinned twins kept machine other given outcome second)
    (goesOn : ∀ {value after mirrored after' more},
      Machine.StillThinned twins kept machine other (given value) (given mirrored) more after after' →
      Thinned more kept after after' handed (next value after) (further mirrored after')) :
    Thinned twins kept machine other handed (outcome.bind next) (second.bind further) :=
  Pairs.bind thinned fun _ _ ⟨_, step⟩ => behind step (goesOn step)

theorem leave {inner inner' : Machine} (both : machine.ThinnedAt twins kept other)
    (layout : twins <+: more) (grows : machine.store.Grows (fun _ => True) inner.store)
    (otherGrows : other.store.Grows (fun _ => True) inner'.store)
    (thinned : Thinned more around inner inner' given outcome second) :
    Thinned twins kept machine other given (outcome.mapState (·.returnTo machine.frame machine.depth))
      (second.mapState (·.returnTo other.frame other.depth)) := by
  cases thinned with
  | @done _ after _ after' holds =>
    obtain ⟨most, step⟩ := holds
    have all := layout.trans step.layout
    have thinned := step.both.thinned
    have returns : machine.Returns (fun _ => True) (after.returnTo machine.frame machine.depth) :=
      ⟨rfl, rfl, grows.trans step.returns.grows fun _ _ => id⟩
    have otherReturns : other.Returns (fun _ => True) (after'.returnTo other.frame other.depth) :=
      ⟨rfl, rfl, otherGrows.trans step.otherReturns.grows fun _ _ => id⟩
    exact .done ⟨most, all, both.grown all returns otherReturns
      ⟨thinned.store, thinned.printed, thinned.closures, thinned.readings⟩, returns, otherReturns,
      step.alike⟩
  | failed fails =>
    obtain ⟨same, most, further, thinned⟩ := fails
    exact .failed ⟨same, most, layout.trans further,
      ⟨thinned.store, thinned.printed, thinned.closures, thinned.readings⟩⟩
  | exhausted same => exact .exhausted same

end OutcomeIn.Thinned

/-- Operators give the same constant, or fail in the same way. -/
theorem Operator.Answers.thinned {operator : Token} {store otherStore : Store Value}
    {result second : Except Failure Value} (answers : Answers operator operator result second) :
    ResultPairs (ValueIn.Thinned twins store otherStore) (· = ·) result second := by
  cases answers with
  | ok constant => exact .ok (.literal constant)
  | runtime cause => exact .error rfl
  | fault fault => exact .error rfl

open OutcomeIn (Thinned)

/-- An expression goes along with the same one without some scopes, from these machines. -/
abbrev ExprThins (rules : Rules) (fuel : Nat) (twins : Twins) (kept : List Bool) (expr slim : Expr)
    (machine other : Machine) : Prop :=
  Thinned twins kept machine other ([·]) (evaluate rules fuel expr machine)
    (evaluate rules fuel slim other)

/-- A statement goes along with the same one without some scopes, from these machines. -/
abbrev StmtThins (rules : Rules) (fuel : Nat) (twins : Twins) (kept : List Bool) (stmt slim : Stmt)
    (machine other : Machine) : Prop :=
  Thinned twins kept machine other CompletionIn.values (execute rules fuel stmt machine)
    (execute rules fuel slim other)

structure ThinsWith (rules : Rules) (fuel : Nat) : Prop where
  evaluate : ∀ {twins kept machine other} {expr slim : Expr}, expr.Thinned kept slim →
    machine.ThinnedAt twins kept other → ExprThins rules fuel twins kept expr slim machine other
  evaluateAll : ∀ {twins kept machine other} {exprs slim : List Expr},
    Expr.AllThinned kept exprs slim → machine.ThinnedAt twins kept other →
    Thinned twins kept machine other id (evaluateAll rules fuel exprs machine)
      (evaluateAll rules fuel slim other)
  call : ∀ {twins kept machine other} {callee second : Value} {arguments others : List Value}
    (line : Int), machine.ThinnedAt twins kept other →
    ValueIn.Thinned twins machine.store other.store callee second →
    List.Forall₂ (ValueIn.Thinned twins machine.store other.store) arguments others →
    Thinned twins kept machine other ([·]) (call rules fuel callee arguments line machine)
      (call rules fuel second others line other)
  execute : ∀ {twins kept machine other} {stmt slim : Stmt}, stmt.Thinned kept slim →
    machine.ThinnedAt twins kept other → StmtThins rules fuel twins kept stmt slim machine other
  executeAll : ∀ {twins kept machine other} {stmts slim : List Stmt},
    Stmt.AllThinned kept stmts slim → machine.ThinnedAt twins kept other →
    Thinned twins kept machine other CompletionIn.values (executeAll rules fuel stmts machine)
      (executeAll rules fuel slim other)
  executeLoop : ∀ {twins kept machine other} {condition slim : Expr} {body slimBody : Stmt},
    condition.Thinned kept slim → body.Thinned kept slimBody → machine.ThinnedAt twins kept other →
    Thinned twins kept machine other CompletionIn.values
      (executeLoop rules fuel condition body machine) (executeLoop rules fuel slim slimBody other)

namespace ThinsWith

variable {rules : Rules} {fuel : Nat}

theorem binary_succ (ih : ThinsWith rules fuel) {operator : Token} {left slim right slimRight : Expr}
    (thinned : left.Thinned kept slim) (thinnedRight : right.Thinned kept slimRight)
    (both : machine.ThinnedAt twins kept other) :
    ExprThins rules (fuel + 1) twins kept (.binary left operator right)
      (.binary slim operator slimRight) machine other := by
  apply (ih.evaluate thinned both).bind
  intro value middle mirrored middle' more first
  apply (ih.evaluate thinnedRight first.both).bind
  intro second after mirroredRight after' most step
  cases step.still first.alike with
  | cons alike _ =>
    cases step.alike with
    | cons alikeRight _ =>
      exact .ofExcept step.both
        (Operator.binary_answers rfl rfl alike.face_eq alikeRight.face_eq).thinned

theorem logical_succ (ih : ThinsWith rules fuel) {operator : Token} {left slim right slimRight : Expr}
    (thinned : left.Thinned kept slim) (thinnedRight : right.Thinned kept slimRight)
    (both : machine.ThinnedAt twins kept other) :
    ExprThins rules (fuel + 1) twins kept (.logical left operator right)
      (.logical slim operator slimRight) machine other := by
  apply (ih.evaluate thinned both).bind
  intro value middle mirrored middle' more first
  cases first.alike with
  | cons alike rest =>
    rw [Operator.decides_of_face rfl alike.face_eq]
    split
    · exact .ends first.both (.cons alike rest)
    · exact ih.evaluate thinnedRight first.both

theorem assign_succ (ih : ThinsWith rules fuel) (lexical : rules.lookup = .lexical) {name : Token}
    {value slimValue : Expr} {distance slim : Option Nat} (thinned : value.Thinned kept slimValue)
    (use : ThinnedUse kept distance slim) (both : machine.ThinnedAt twins kept other) :
    ExprThins rules (fuel + 1) twins kept (.assign name value distance)
      (.assign name slimValue slim) machine other := by
  apply (ih.evaluate thinned both).bind
  intro result middle mirrored middle' more step
  cases step.alike with
  | cons alike _ =>
    have located := step.both.locate name use
    rw [← lexical] at located
    -- What `located` says of both answers is all that is needed of them.
    generalize middle.locate rules.lookup name distance = answer at located
    generalize middle'.locate rules.lookup name slim = second at located
    cases located with
    | @ok found twin has =>
      have grows : middle.Returns (fun _ => True) (middle.replace found name.lexeme result) :=
        ⟨rfl, rfl, .put result (.inl trivial)⟩
      have otherGrows : middle'.Returns (fun _ => True)
          (middle'.replace twin name.lexeme mirrored) := ⟨rfl, rfl, .put mirrored (.inl trivial)⟩
      exact .done ⟨more, List.prefix_refl _, step.both.replace has name.lexeme alike, grows,
        otherGrows, .cons (alike.mono (List.prefix_refl _) grows.grows otherGrows.grows) .nil⟩
    | error same =>
      cases same
      exact .fails step.both _

theorem callExpr_succ (ih : ThinsWith rules fuel) {paren : Token} {callee slim : Expr}
    {arguments others : List Expr} (thinned : callee.Thinned kept slim)
    (thinnedAll : Expr.AllThinned kept arguments others) (both : machine.ThinnedAt twins kept other) :
    ExprThins rules (fuel + 1) twins kept (.call callee paren arguments) (.call slim paren others)
      machine other := by
  apply (ih.evaluate thinned both).bind
  intro function middle mirrored middle' more first
  apply (ih.evaluateAll thinnedAll first.both).bind
  intro values after others after' most step
  cases step.still first.alike with
  | cons alike _ => exact ih.call _ step.both alike step.alike

theorem evaluate_succ (ih : ThinsWith rules fuel) (lexical : rules.lookup = .lexical)
    {expr slim : Expr} (thinned : expr.Thinned kept slim)
    (both : machine.ThinnedAt twins kept other) :
    ExprThins rules (fuel + 1) twins kept expr slim machine other := by
  cases thinned with
  | literal value => exact .ends both (.cons (.literal value) .nil)
  | grouping inner => exact ih.evaluate inner both
  | unary operand =>
    apply (ih.evaluate operand both).bind
    intro value after mirrored after' more step
    cases step.alike with
    | cons alike _ => exact .ofExcept step.both (Operator.unary_answers rfl rfl alike.face_eq).thinned
  | binary left right => exact ih.binary_succ left right both
  | logical left right => exact ih.logical_succ left right both
  | @reference name _ _ use =>
    have read := both.read name use
    rw [← lexical] at read
    exact .ofExcept both read
  | assign value use => exact ih.assign_succ lexical value use both
  | call callee arguments => exact ih.callExpr_succ callee arguments both
  | misplaced node => exact .fails both _

theorem evaluateAll_succ (ih : ThinsWith rules fuel) {exprs slim : List Expr}
    (thinned : Expr.AllThinned kept exprs slim) (both : machine.ThinnedAt twins kept other) :
    Thinned twins kept machine other id (Lox.evaluateAll rules (fuel + 1) exprs machine)
      (Lox.evaluateAll rules (fuel + 1) slim other) := by
  cases thinned with
  | nil => exact .ends both .nil
  | cons first rest =>
    apply (ih.evaluate first both).bind
    intro value middle mirrored middle' more one
    apply (ih.evaluateAll rest one.both).bind
    intro values after others after' most step
    cases step.still one.alike with
    | cons alike _ => exact .ends step.both (.cons alike step.alike)

theorem call_succ (ih : ThinsWith rules fuel) {callee second : Value} {arguments others : List Value}
    (line : Int) (both : machine.ThinnedAt twins kept other)
    (alike : ValueIn.Thinned twins machine.store other.store callee second)
    (alikes : List.Forall₂ (ValueIn.Thinned twins machine.store other.store) arguments others) :
    Thinned twins kept machine other ([·]) (Lox.call rules (fuel + 1) callee arguments line machine)
      (Lox.call rules (fuel + 1) second others line other) := by
  -- Callees with the same face are refused for the same cause.
  have same : rules.refusal? second others.length other.depth =
      rules.refusal? callee arguments.length machine.depth := by
    rw [rules.refusal?_of_face alike.face_eq, alikes.length_eq, both.depth]
  cases refused : rules.refusal? callee arguments.length machine.depth with
  | some cause =>
    rw [call_of_refused refused, call_of_refused (same.trans refused)]
    exact .fails both _
  | none =>
    have accepted := same.trans refused
    cases alike with
    | literal constant => cases refused
    | native function =>
      cases function
      rw [Lox.call, Lox.call, refused, accepted]
      have thinned := both.thinned
      dsimp only
      rw [thinned.readings]
      exact .done ⟨twins, List.prefix_refl _,
        ⟨⟨thinned.store, thinned.printed, thinned.closures, rfl⟩, both.depth, both.beside⟩,
        ⟨rfl, rfl, .refl _⟩, ⟨rfl, rfl, .refl _⟩, .cons (.literal _) .nil⟩
    | @closure function body env around beside thinned =>
      rw [call_closure rules fuel line refused, call_closure rules fuel line accepted]
      -- The frame of the call is kept on both sides, so it gets a twin.
      have entered : Machine.ThinnedAt (twins ++ [some other.store.next]) (true :: around)
          (machine.enterCall function arguments)
          (other.enterCall { function with body := body, env := env } others) :=
        both.enterCall beside alikes
      have grows : machine.store.Grows (fun _ => True) (machine.enterCall function arguments).store :=
        (Store.Grows.add machine.store (some function.env)).trans
          (machine.extended_enterCall function arguments).all.grows fun _ _ => id
      have otherGrows : other.store.Grows (fun _ => True)
          (other.enterCall { function with body := body, env := env } others).store :=
        (Store.Grows.add other.store (some env)).trans
          (other.extended_enterCall { function with body := body, env := env } others).all.grows
          fun _ _ => id
      apply Thinned.leave both (List.prefix_append _ _) grows otherGrows
      apply (ih.executeAll thinned entered).bind
      intro completion after mirrored after' more step
      exact .ends step.both (CompletionIn.related_value (.literal .nil) step.alike)

theorem print_succ (ih : ThinsWith rules fuel) {inner slim : Expr} (thinned : inner.Thinned kept slim)
    (both : machine.ThinnedAt twins kept other) :
    StmtThins rules (fuel + 1) twins kept (.print inner) (.print slim) machine other := by
  apply (ih.evaluate thinned both).bind
  intro value after mirrored after' more step
  cases step.alike with
  | cons alike _ =>
    have thinned := step.both.thinned
    refine .done ⟨more, List.prefix_refl _, ⟨⟨thinned.store, ?_, thinned.closures,
      thinned.readings⟩, step.both.depth, step.both.beside⟩, ⟨rfl, rfl, .refl _⟩,
      ⟨rfl, rfl, .refl _⟩, .nil⟩
    unfold Machine.print
    rw [thinned.printed, ValueIn.display_of_face alike.face_eq]

theorem varDecl_succ (ih : ThinsWith rules fuel) {name : Token} {initializer slim : Option Expr}
    (keeps : keptAt kept 0 = true) (thinned : Option.Rel (Expr.Thinned kept) initializer slim)
    (both : machine.ThinnedAt twins kept other) :
    StmtThins rules (fuel + 1) twins kept (.varDecl name initializer) (.varDecl name slim) machine
      other := by
  cases thinned with
  | none =>
    exact .done ⟨twins, List.prefix_refl _, both.define keeps name.lexeme (.literal .nil),
      (machine.extended_define name.lexeme .nil).all, (other.extended_define name.lexeme .nil).all,
      .nil⟩
  | some initializer =>
    apply (ih.evaluate initializer both).bind
    intro value after mirrored after' more step
    cases step.alike with
    | cons alike _ =>
      exact .done ⟨more, List.prefix_refl _, step.both.define keeps name.lexeme alike,
        (after.extended_define name.lexeme value).all,
        (after'.extended_define name.lexeme mirrored).all, .nil⟩

theorem conditional_succ (ih : ThinsWith rules fuel) {condition slim : Expr} {yes slimYes : Stmt}
    (thinned : condition.Thinned kept slim) (thinnedYes : yes.Thinned kept slimYes)
    (both : machine.ThinnedAt twins kept other) :
    StmtThins rules (fuel + 1) twins kept (.conditional condition yes none)
      (.conditional slim slimYes none) machine other := by
  apply (ih.evaluate thinned both).bind
  intro value middle mirrored middle' more first
  cases first.alike with
  | cons alike _ =>
    rw [ValueIn.truthy_of_face alike.face_eq]
    split
    · exact ih.execute thinnedYes first.both
    · exact .ends first.both .nil

theorem alternative_succ (ih : ThinsWith rules fuel) {condition slim : Expr}
    {yes slimYes no slimNo : Stmt} (thinned : condition.Thinned kept slim)
    (thinnedYes : yes.Thinned kept slimYes) (thinnedNo : no.Thinned kept slimNo)
    (both : machine.ThinnedAt twins kept other) :
    StmtThins rules (fuel + 1) twins kept (.conditional condition yes (some no))
      (.conditional slim slimYes (some slimNo)) machine other := by
  apply (ih.evaluate thinned both).bind
  intro value middle mirrored middle' more first
  cases first.alike with
  | cons alike _ =>
    rw [ValueIn.truthy_of_face alike.face_eq]
    split
    · exact ih.execute thinnedYes first.both
    · exact ih.execute thinnedNo first.both

theorem execute_succ (ih : ThinsWith rules fuel) {stmt slim : Stmt} (thinned : stmt.Thinned kept slim)
    (both : machine.ThinnedAt twins kept other) :
    StmtThins rules (fuel + 1) twins kept stmt slim machine other := by
  cases thinned with
  | expression inner =>
    apply (ih.evaluate inner both).bind
    intro value after mirrored after' more step
    exact .ends step.both .nil
  | print inner => exact ih.print_succ inner both
  | varDecl keeps initializer => exact ih.varDecl_succ keeps initializer both
  | block body =>
    unfold StmtThins
    rw [execute_block, execute_block]
    exact .leave both (List.prefix_append _ _) (.add _ _) (.add _ _)
      (ih.executeAll body (.enter both.thinned both.beside both.depth))
  | conditional condition yes => exact ih.conditional_succ condition yes both
  | alternative condition yes no => exact ih.alternative_succ condition yes no both
  | loop condition body => exact ih.executeLoop condition body both
  | @funDecl _ name params body slim keeps thinned =>
    exact .done ⟨twins, List.prefix_refl _, both.defineClosure keeps thinned,
      (machine.extended_defineClosure name params body).all,
      (other.extended_defineClosure name params slim).all, .nil⟩
  | ret same =>
    cases same with
    | none => exact .ends both (.cons (.literal .nil) .nil)
    | some value =>
      apply (ih.evaluate value both).bind
      intro result after mirrored after' more step
      exact .ends step.both step.alike
  | misplaced node => exact .fails both _

theorem executeAll_succ (ih : ThinsWith rules fuel) {stmts slim : List Stmt}
    (thinned : Stmt.AllThinned kept stmts slim) (both : machine.ThinnedAt twins kept other) :
    Thinned twins kept machine other CompletionIn.values
      (Lox.executeAll rules (fuel + 1) stmts machine) (Lox.executeAll rules (fuel + 1) slim other) := by
  cases thinned with
  | nil => exact .ends both .nil
  | cons first rest =>
    apply (ih.execute first both).bind
    intro completion middle mirrored middle' more step
    rcases CompletionIn.cases_of_values step.alike with ⟨rfl, rfl⟩ | ⟨value, second, rfl, rfl, _⟩
    · exact ih.executeAll rest step.both
    · exact .ends step.both step.alike

theorem executeLoop_succ (ih : ThinsWith rules fuel) {condition slim : Expr} {body slimBody : Stmt}
    (thinnedCondition : condition.Thinned kept slim) (thinned : body.Thinned kept slimBody)
    (both : machine.ThinnedAt twins kept other) :
    Thinned twins kept machine other CompletionIn.values
      (Lox.executeLoop rules (fuel + 1) condition body machine)
      (Lox.executeLoop rules (fuel + 1) slim slimBody other) := by
  apply (ih.evaluate thinnedCondition both).bind
  intro value middle mirrored middle' more first
  cases first.alike with
  | cons alike _ =>
    rw [ValueIn.truthy_of_face alike.face_eq]
    split
    · apply (ih.execute thinned first.both).bind
      intro completion later second later' most step
      rcases CompletionIn.cases_of_values step.alike with ⟨rfl, rfl⟩ | ⟨value, second, rfl, rfl, _⟩
      · exact ih.executeLoop thinnedCondition thinned step.both
      · exact .ends step.both step.alike
    · exact .ends first.both .nil

end ThinsWith

/-- Whatever a program does that resolves its names, it does without scopes in which nothing
is declared. -/
theorem thinsWith {rules : Rules} (lexical : rules.lookup = .lexical) (fuel : Nat) :
    ThinsWith rules fuel := by
  induction fuel with
  -- Without fuel both stop at once, with the lines that they have printed before.
  | zero =>
    exact ⟨fun _ both => .stops both, fun _ both => .stops both, fun _ both _ _ => .stops both,
      fun _ both => .stops both, fun _ both => .stops both, fun _ _ both => .stops both⟩
  | succ fuel ih =>
    exact ⟨ih.evaluate_succ lexical, ih.evaluateAll_succ, ih.call_succ, ih.execute_succ,
      ih.executeAll_succ, ih.executeLoop_succ⟩

end Lox
