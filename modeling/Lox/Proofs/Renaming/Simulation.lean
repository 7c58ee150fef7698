import Lox.Proofs.Renaming.Machines
import Lox.Proofs.Run.Point

/-! Every step of a program, and the same step with other names.

With the same fuel both end in the same way: with values that go together, with the
same failure, or without fuel. Where a name is missing, both runs have come to the same
use of it, and each misses the name that stands there.
-/

set_option autoImplicit false

namespace Lox

variable {names : Renaming} {rules : Rules} {marked more most : List Bool} {marks : List Bool}
  {before machine other after after' : Machine}

/-- The same task of the program with other names. -/
inductive Task.Renamed (names : Renaming) : Task → Task → Prop where
  | evaluate (marks : List Bool) (expr : Expr) :
      Renamed names (.evaluate expr) (.evaluate (expr.rename names marks))
  | call (callee second : Value) (arguments others : List Value) (line : Int) :
      Renamed names (.call callee arguments line) (.call second others line)
  | execute {marks : List Bool} {stmt second : Stmt} :
      Stmt.Renamed names marks stmt second → Renamed names (.execute stmt) (.execute second)

/-- Two failures that go together, raised where two runs have come to the same task. -/
structure Point.Blames (names : Renaming) (rules : Rules) (point mirror : Point)
    (failure second : Failure) : Prop where
  renamed : failure.Renamed names second
  raised : ∃ culprit other, Reaches rules point culprit ∧ Reaches rules mirror other ∧
    Raises rules culprit failure ∧ Raises rules other second ∧
    culprit.task.Renamed names other.task

namespace Point.Blames

variable {point next mirror mirrorNext : Point} {failure second : Failure}

theorem of_starts (blames : next.Blames names rules mirrorNext failure second)
    (starts : Starts rules point next) (also : Starts rules mirror mirrorNext) :
    point.Blames names rules mirror failure second := by
  obtain ⟨culprit, other, reaches, reachesOther, rest⟩ := blames.raised
  exact ⟨blames.renamed, culprit, other, .head starts reaches, .head also reachesOther, rest⟩

theorem of_raises (renamed : failure.Renamed names second) (raises : Raises rules point failure)
    (also : Raises rules mirror second) (same : point.task.Renamed names mirror.task) :
    point.Blames names rules mirror failure second :=
  ⟨renamed, point, mirror, .refl, .refl, raises, also, same⟩

end Point.Blames

def Alongside (names : Renaming) (rules : Rules) (point mirror : Point) {α : Type}
    (good : α → Machine → α → Machine → Prop) : Outcome α → Outcome α → Prop :=
  OutcomeIn.Pairs good
    (fun failure state second state' => point.Blames names rules mirror failure second ∧
      ∃ marked, state.Renamed names marked state')
    fun state state' => state'.printed = state.printed

theorem Alongside.pass {α : Type} {point next mirror mirrorNext : Point}
    {good : α → Machine → α → Machine → Prop} {outcome second : Outcome α}
    (alongside : Alongside names rules next mirrorNext good outcome second)
    (starts : Point.Starts rules point next) (also : Point.Starts rules mirror mirrorNext) :
    Alongside names rules point mirror good outcome second :=
  OutcomeIn.Pairs.mono alongside id fun fails => ⟨fails.1.of_starts starts also, fails.2⟩

theorem Alongside.leave {α : Type} {point mirror : Point} {frame frame' depth depth' : Nat}
    {good : α → Machine → α → Machine → Prop} {outcome second : Outcome α}
    (alongside : Alongside names rules point mirror (fun value after other after' =>
      good value (after.returnTo frame depth) other (after'.returnTo frame' depth')) outcome second) :
    Alongside names rules point mirror good (outcome.mapState (·.returnTo frame depth))
      (second.mapState (·.returnTo frame' depth')) := by
  refine OutcomeIn.Pairs.mapState alongside ?_ id
  rintro failure state failing state' ⟨blames, marked, renamed⟩
  exact ⟨blames, marked, renamed.store, renamed.printed, renamed.closures, renamed.readings⟩

/-- What a step from `before` leaves where the frames had the marks `marked`, and after which
they have the marks `more`. -/
structure Machine.Keeps (names : Renaming) (marked marks : List Bool) (before : Machine)
    (values others : List Value) (more : List Bool) (after after' : Machine) : Prop where
  layout : marked <+: more
  both : after.RenamedAt names more marks after'
  grows : before.store.Grows (fun _ => True) after.store
  alike : List.Forall₂ (ValueIn.Renamed names more after.store) values others

namespace Machine.Keeps

variable {values others earlier mirrored : List Value}

theorem refl (both : machine.RenamedAt names marked marks other)
    (alike : List.Forall₂ (ValueIn.Renamed names marked machine.store) values others) :
    machine.Keeps names marked marks values others marked machine other :=
  ⟨List.prefix_refl _, both, .refl _, alike⟩

theorem trans {around : List Bool}
    (first : before.Keeps names marked around earlier mirrored more machine other)
    (second : machine.Keeps names more marks values others most after after') :
    before.Keeps names marked marks values others most after after' :=
  ⟨first.layout.trans second.layout, second.both, first.grows.trans second.grows fun _ _ => id,
    second.alike⟩

theorem give (step : before.Keeps names marked marks earlier mirrored more after after')
    (alike : List.Forall₂ (ValueIn.Renamed names more after.store) values others) :
    before.Keeps names marked marks values others more after after' :=
  ⟨step.layout, step.both, step.grows, alike⟩

theorem still (step : machine.Keeps names more marks values others most after after')
    (alike : List.Forall₂ (ValueIn.Renamed names more machine.store) earlier mirrored) :
    List.Forall₂ (ValueIn.Renamed names most after.store) earlier mirrored :=
  List.Forall₂.imp (fun _ _ alike => alike.mono step.layout step.grows) alike

theorem leave {parent : Nat} {inner : Machine} {around : List Bool} {mark : Bool}
    (both : machine.RenamedAt names marked marks other)
    (step : inner.Keeps names (marked ++ [mark]) around values others more after after')
    (grows : (machine.enter parent).store.Grows (fun _ => True) inner.store) :
    machine.Keeps names marked marks values others more
      (after.returnTo machine.frame machine.depth) (after'.returnTo other.frame other.depth) := by
  have renamed := step.both.renamed
  have layout : marked <+: more := (List.prefix_append _ _).trans step.layout
  have all : machine.store.Grows (fun _ => True) after.store :=
    (Store.Grows.add machine.store (some parent)).trans (grows.trans step.grows fun _ _ => id)
      fun _ _ => id
  exact ⟨layout, both.unmoved layout ⟨rfl, rfl, all⟩
    ⟨renamed.store, renamed.printed, renamed.closures, renamed.readings⟩ rfl rfl, all, step.alike⟩

end Machine.Keeps

/-- Operators give the same constant, or fail in the same way. -/
theorem Operator.Answers.pairs {operator : Token} {store : Store Value}
    {result second : Except Failure Value} (answers : Answers operator operator result second) :
    ResultPairs (ValueIn.Renamed names marked store) (Failure.Renamed names) result second := by
  cases answers with
  | ok constant => exact .ok (.literal constant)
  | runtime cause => exact .error (.same _)
  | fault fault => exact .error (.same _)

abbrev ExprAlongside (names : Renaming) (rules : Rules) (fuel : Nat) (marked marks : List Bool)
    (expr : Expr) (machine other : Machine) : Prop :=
  Alongside names rules ⟨.evaluate expr, fuel, machine⟩
    ⟨.evaluate (expr.rename names marks), fuel, other⟩
    (fun value after second after' => ∃ more,
      machine.Keeps names marked marks [value] [second] more after after')
    (evaluate rules fuel expr machine) (evaluate rules fuel (expr.rename names marks) other)

abbrev StmtAlongside (names : Renaming) (rules : Rules) (fuel : Nat) (marked marks : List Bool)
    (stmt second : Stmt) (machine other : Machine) : Prop :=
  Alongside names rules ⟨.execute stmt, fuel, machine⟩ ⟨.execute second, fuel, other⟩
    (fun completion after second after' => ∃ more,
      machine.Keeps names marked marks completion.values second.values more after after')
    (execute rules fuel stmt machine) (execute rules fuel second other)

structure RenamesWith (names : Renaming) (rules : Rules) (fuel : Nat) : Prop where
  evaluate : ∀ (expr : Expr) {marked marks : List Bool} {machine other : Machine},
    machine.RenamedAt names marked marks other → expr.Named names.Known →
    ExprAlongside names rules fuel marked marks expr machine other
  evaluateAll : ∀ (exprs : List Expr) {marked marks : List Bool} {machine other : Machine},
    machine.RenamedAt names marked marks other → Expr.AllNamed names.Known exprs →
    Alongside names rules ⟨.evaluateAll exprs, fuel, machine⟩
      ⟨.evaluateAll (Expr.renameAll names marks exprs), fuel, other⟩
      (fun values after others after' => ∃ more,
        machine.Keeps names marked marks values others more after after')
      (evaluateAll rules fuel exprs machine)
      (evaluateAll rules fuel (Expr.renameAll names marks exprs) other)
  call : ∀ (line : Int) {marked marks : List Bool} {callee second : Value}
    {arguments others : List Value} {machine other : Machine},
    machine.RenamedAt names marked marks other →
    ValueIn.Renamed names marked machine.store callee second →
    List.Forall₂ (ValueIn.Renamed names marked machine.store) arguments others →
    Alongside names rules ⟨.call callee arguments line, fuel, machine⟩
      ⟨.call second others line, fuel, other⟩
      (fun value after second after' => ∃ more,
        machine.Keeps names marked marks [value] [second] more after after')
      (call rules fuel callee arguments line machine) (call rules fuel second others line other)
  execute : ∀ {stmt second : Stmt} {marked marks : List Bool} {machine other : Machine},
    machine.RenamedAt names marked marks other → stmt.Renamed names marks second →
    stmt.Named names.Known →
    StmtAlongside names rules fuel marked marks stmt second machine other
  executeAll : ∀ {stmts others : List Stmt} {marked marks : List Bool} {machine other : Machine},
    machine.RenamedAt names marked marks other → Stmt.AllRenamed names marks stmts others →
    Stmt.AllNamed names.Known stmts →
    Alongside names rules ⟨.executeAll stmts, fuel, machine⟩ ⟨.executeAll others, fuel, other⟩
      (fun completion after second after' => ∃ more,
        machine.Keeps names marked marks completion.values second.values more after after')
      (executeAll rules fuel stmts machine) (executeAll rules fuel others other)
  executeLoop : ∀ (condition : Expr) {body second : Stmt} {marked marks : List Bool}
    {machine other : Machine}, machine.RenamedAt names marked marks other →
    condition.Named names.Known → body.Renamed names marks second → body.Named names.Known →
    Alongside names rules ⟨.executeLoop condition body, fuel, machine⟩
      ⟨.executeLoop (condition.rename names marks) second, fuel, other⟩
      (fun completion after second after' => ∃ more,
        machine.Keeps names marked marks completion.values second.values more after after')
      (executeLoop rules fuel condition body machine)
      (executeLoop rules fuel (condition.rename names marks) second other)

namespace RenamesWith

variable {fuel : Nat}

theorem unary_succ (ih : RenamesWith names rules fuel) (operator : Token) {operand : Expr}
    (both : machine.RenamedAt names marked marks other) (named : operand.Named names.Known) :
    ExprAlongside names rules (fuel + 1) marked marks (.unary operator operand) machine other := by
  apply ((ih.evaluate operand both named).pass .unary .unary).bind
  rintro value after second after' ran ran' ⟨more, step⟩
  cases step.alike with
  | cons alike _ =>
    exact OutcomeIn.pairs_ofExcept (Operator.unary_answers rfl rfl alike.face_eq).pairs
      (fun alike => ⟨more, step.give (.cons alike .nil)⟩) fun error error' fails =>
        ⟨.of_raises fails (.unary ran error) (.unary ran' error') (.evaluate marks _), more,
          step.both.renamed⟩

theorem binary_succ (ih : RenamesWith names rules fuel) (operator : Token) {left right : Expr}
    (both : machine.RenamedAt names marked marks other) (namedLeft : left.Named names.Known)
    (namedRight : right.Named names.Known) :
    ExprAlongside names rules (fuel + 1) marked marks (.binary left operator right) machine
      other := by
  apply ((ih.evaluate left both namedLeft).pass .binaryLeft .binaryLeft).bind
  rintro value middle second middle' ran ran' ⟨more, first⟩
  apply ((ih.evaluate right first.both namedRight).pass (.binaryRight ran) (.binaryRight ran')).bind
  rintro valueRight after secondRight after' went went' ⟨most, step⟩
  -- The left operands still go together after the right ones.
  cases step.still first.alike with
  | cons alike _ =>
    cases step.alike with
    | cons alikeRight _ =>
      exact OutcomeIn.pairs_ofExcept
        (Operator.binary_answers rfl rfl alike.face_eq alikeRight.face_eq).pairs
        (fun alike => ⟨most, (first.trans step).give (.cons alike .nil)⟩) fun error error' fails =>
          ⟨.of_raises fails (.binary ran went error) (.binary ran' went' error')
            (.evaluate marks _), most, step.both.renamed⟩

theorem logical_succ (ih : RenamesWith names rules fuel) (operator : Token) {left right : Expr}
    (both : machine.RenamedAt names marked marks other) (namedLeft : left.Named names.Known)
    (namedRight : right.Named names.Known) :
    ExprAlongside names rules (fuel + 1) marked marks (.logical left operator right) machine
      other := by
  apply ((ih.evaluate left both namedLeft).pass .logicalLeft .logicalLeft).bind
  rintro value middle second middle' ran ran' ⟨more, first⟩
  cases first.alike with
  | cons alike _ =>
    have decides : Operator.decides operator second = Operator.decides operator value :=
      Operator.decides_of_face rfl alike.face_eq
    rw [decides]
    split
    · exact .done ⟨more, first⟩
    next undecided =>
      have goesOn := Bool.eq_false_iff.mpr undecided
      refine ((ih.evaluate right first.both namedRight).pass (.logicalRight ran goesOn)
        (.logicalRight ran' (decides.trans goesOn))).mono ?_ id
      rintro value after second after' ⟨most, step⟩
      exact ⟨most, first.trans step⟩

theorem assign_succ (ih : RenamesWith names rules fuel) (lexical : rules.lookup = .lexical)
    {name : Token} {value : Expr} (distance : Option Nat)
    (both : machine.RenamedAt names marked marks other) (namedValue : value.Named names.Known)
    (named : names.Known name.lexeme) :
    ExprAlongside names rules (fuel + 1) marked marks (.assign name value distance) machine
      other := by
  apply ((ih.evaluate value both namedValue).pass .assigned .assigned).bind
  rintro result middle second middle' ran ran' ⟨more, step⟩
  cases step.alike with
  | cons alike _ =>
    have located := step.both.locate named distance
    rw [← lexical] at located
    -- What `located` says of both answers is all that is needed of them.
    generalize here : middle.locate rules.lookup name distance = answer at located
    generalize there : middle'.locate rules.lookup
      (name.rename names (markAt marks distance)) distance = second at located
    cases located with
    | @ok _ found places =>
      obtain ⟨rfl, place⟩ := places
      have grows : middle.store.Grows (fun _ => True) (middle.store.put found name.lexeme result) :=
        .put result (.inl trivial)
      exact .done ⟨more, step.trans ⟨List.prefix_refl _, step.both.replace place named alike, grows,
        .cons (alike.mono (List.prefix_refl _) grows) .nil⟩⟩
    | error fails =>
      exact .failed ⟨.of_raises fails (.assign ran here) (.assign ran' there) (.evaluate marks _),
        more, step.both.renamed⟩

theorem callExpr_succ (ih : RenamesWith names rules fuel) (paren : Token) {callee : Expr}
    {arguments : List Expr} (both : machine.RenamedAt names marked marks other)
    (named : callee.Named names.Known) (namedAll : Expr.AllNamed names.Known arguments) :
    ExprAlongside names rules (fuel + 1) marked marks (.call callee paren arguments) machine
      other := by
  apply ((ih.evaluate callee both named).pass .callee .callee).bind
  rintro value middle second middle' ran ran' ⟨more, first⟩
  apply ((ih.evaluateAll arguments first.both namedAll).pass (.arguments ran) (.arguments ran')).bind
  rintro values later others later' went went' ⟨most, next⟩
  cases next.still first.alike with
  | cons alike _ =>
    refine ((ih.call paren.line next.both alike next.alike).pass (.call ran went)
      (.call ran' went')).mono ?_ id
    rintro value after other after' ⟨last, step⟩
    exact ⟨last, first.trans (next.trans step)⟩

theorem evaluate_succ (ih : RenamesWith names rules fuel) (lexical : rules.lookup = .lexical)
    (expr : Expr) (both : machine.RenamedAt names marked marks other)
    (named : expr.Named names.Known) :
    ExprAlongside names rules (fuel + 1) marked marks expr machine other := by
  cases expr with
  | literal value => exact .done ⟨marked, .refl both (.cons (.literal value) .nil)⟩
  | grouping inner => exact (ih.evaluate inner both named).pass .grouping .grouping
  | unary operator operand => exact ih.unary_succ operator both named
  | binary left operator right => exact ih.binary_succ operator both named.1 named.2
  | logical left operator right => exact ih.logical_succ operator both named.1 named.2
  | reference name distance =>
    have read := both.read named distance
    rw [← lexical] at read
    exact OutcomeIn.pairs_ofExcept read (fun alike => ⟨marked, .refl both (.cons alike .nil)⟩)
      fun error error' fails =>
        ⟨.of_raises fails (.reference error) (.reference error') (.evaluate marks _), marked,
          both.renamed⟩
  | assign name value distance => exact ih.assign_succ lexical distance both named.1 named.2
  | call callee paren arguments => exact ih.callExpr_succ paren both named.1 named.2
  | misplaced node =>
    exact .failed ⟨.of_raises (.same _) .misplacedExpr .misplacedExpr (.evaluate marks _), marked,
      both.renamed⟩

theorem evaluateAll_succ (ih : RenamesWith names rules fuel) (exprs : List Expr)
    (both : machine.RenamedAt names marked marks other) (named : Expr.AllNamed names.Known exprs) :
    Alongside names rules ⟨.evaluateAll exprs, fuel + 1, machine⟩
      ⟨.evaluateAll (Expr.renameAll names marks exprs), fuel + 1, other⟩
      (fun values after others after' => ∃ more,
        machine.Keeps names marked marks values others more after after')
      (Lox.evaluateAll rules (fuel + 1) exprs machine)
      (Lox.evaluateAll rules (fuel + 1) (Expr.renameAll names marks exprs) other) := by
  cases exprs with
  | nil => exact .done ⟨marked, .refl both .nil⟩
  | cons first others =>
    apply ((ih.evaluate first both named.1).pass .firstExpr .firstExpr).bind
    rintro value middle second middle' ran ran' ⟨more, one⟩
    apply ((ih.evaluateAll others one.both named.2).pass (.otherExprs ran) (.otherExprs ran')).bind
    rintro values after others after' went went' ⟨most, rest⟩
    cases rest.still one.alike with
    | cons alike _ => exact .done ⟨most, (one.trans rest).give (.cons alike rest.alike)⟩

theorem call_succ (ih : RenamesWith names rules fuel) (line : Int) {callee second : Value}
    {arguments others : List Value} (both : machine.RenamedAt names marked marks other)
    (alike : ValueIn.Renamed names marked machine.store callee second)
    (alikes : List.Forall₂ (ValueIn.Renamed names marked machine.store) arguments others) :
    Alongside names rules ⟨.call callee arguments line, fuel + 1, machine⟩
      ⟨.call second others line, fuel + 1, other⟩
      (fun value after second after' => ∃ more,
        machine.Keeps names marked marks [value] [second] more after after')
      (Lox.call rules (fuel + 1) callee arguments line machine)
      (Lox.call rules (fuel + 1) second others line other) := by
  -- Callees with the same face are refused for the same cause.
  have same : rules.refusal? second others.length other.depth =
      rules.refusal? callee arguments.length machine.depth := by
    rw [rules.refusal?_of_face alike.face_eq, alikes.length_eq, both.depth]
  cases refused : rules.refusal? callee arguments.length machine.depth with
  | some cause =>
    have refusedOther := same.trans refused
    rw [call_of_refused refused, call_of_refused refusedOther]
    exact .failed ⟨.of_raises (.same _) (.refused refused) (.refused refusedOther)
      (.call callee second arguments others line), marked, both.renamed⟩
  | none =>
    have accepted := same.trans refused
    cases alike with
    | literal constant => cases refused
    | native function =>
      cases function
      rw [Lox.call, Lox.call, refused, accepted]
      have renamed := both.renamed
      dsimp only
      rw [renamed.readings]
      exact .done ⟨marked, List.prefix_refl _, ⟨⟨renamed.store, renamed.printed, renamed.closures, rfl⟩,
        both.frame, both.depth, both.around⟩, .refl _, .cons (.literal _) .nil⟩
    | @closure function body mark around along renamed known named =>
      rw [call_closure rules fuel line refused, call_closure rules fuel line accepted]
      -- The new frame is marked as the body of the declaration is.
      have entered := @Machine.RenamedAt.enterCall _ _ _ _ _ function body mark _ _ _ both along known
        alikes
      have bound := (machine.extended_enterCall function arguments).grows.mono fun _ _ _ => trivial
      apply Alongside.leave
      refine OutcomeIn.Pairs.bind ((ih.executeAll entered renamed named).pass (.body refused)
        (.body accepted)) ?_
      rintro completion after second after' ran ran' ⟨more, step⟩
      have handed := CompletionIn.related_value (.literal .nil) step.alike
      exact .done ⟨more, .leave both (step.give handed) bound⟩

theorem execute_next (ih : RenamesWith names rules fuel) {point mirror : Point}
    {earlier mirrored : List Value} {stmt second : Stmt}
    (first : before.Keeps names marked marks earlier mirrored more machine other)
    (renamed : stmt.Renamed names marks second) (named : stmt.Named names.Known)
    (starts : Point.Starts rules point ⟨.execute stmt, fuel, machine⟩)
    (also : Point.Starts rules mirror ⟨.execute second, fuel, other⟩) :
    Alongside names rules point mirror
      (fun completion after second after' => ∃ more,
        before.Keeps names marked marks completion.values second.values more after after')
      (Lox.execute rules fuel stmt machine) (Lox.execute rules fuel second other) := by
  refine ((ih.execute first.both renamed named).pass starts also).mono ?_ id
  rintro completion after second after' ⟨most, step⟩
  exact ⟨most, first.trans step⟩

theorem print_succ (ih : RenamesWith names rules fuel) {inner : Expr}
    (both : machine.RenamedAt names marked marks other) (named : inner.Named names.Known) :
    StmtAlongside names rules (fuel + 1) marked marks (.print inner)
      (.print (inner.rename names marks)) machine other := by
  apply ((ih.evaluate inner both named).pass .print .print).bind
  rintro value after second after' ran ran' ⟨more, step⟩
  cases step.alike with
  | cons alike _ =>
    have at_ := step.both
    refine .done ⟨more, step.layout, ⟨⟨at_.renamed.store, ?_, at_.renamed.closures,
      at_.renamed.readings⟩, at_.frame, at_.depth, at_.around⟩, step.grows, .nil⟩
    unfold Machine.print
    rw [at_.renamed.printed, ValueIn.display_of_face alike.face_eq]

theorem varDecl_succ (ih : RenamesWith names rules fuel) (name : Token)
    (initializer : Option Expr) (both : machine.RenamedAt names marked marks other)
    (named : (Stmt.varDecl name initializer).Named names.Known) :
    StmtAlongside names rules (fuel + 1) marked marks (.varDecl name initializer)
      (.varDecl (name.rename names (markHere marks)) (initializer.map (Expr.rename names marks)))
      machine other := by
  cases initializer with
  | none =>
    exact .done ⟨marked, List.prefix_refl _, both.define named (.literal .nil),
      (machine.extended_define name.lexeme .nil).grows.mono fun _ _ _ => trivial, .nil⟩
  | some initializer =>
    apply ((ih.evaluate initializer both named.2).pass .initializer .initializer).bind
    rintro value middle second middle' ran ran' ⟨more, step⟩
    cases step.alike with
    | cons alike _ =>
      exact .done ⟨more, step.trans ⟨List.prefix_refl _, step.both.define named.1 alike,
        (middle.extended_define name.lexeme value).grows.mono fun _ _ _ => trivial, .nil⟩⟩

theorem block_succ (ih : RenamesWith names rules fuel) (mark : Bool) {body others : List Stmt}
    (both : machine.RenamedAt names marked marks other)
    (renamed : Stmt.AllRenamed names (mark :: marks) body others)
    (named : Stmt.AllNamed names.Known body) :
    StmtAlongside names rules (fuel + 1) marked marks (.block body) (.block others) machine
      other := by
  unfold StmtAlongside
  rw [execute_block, execute_block]
  apply Alongside.leave
  have entered : Machine.RenamedAt names (marked ++ [mark]) (mark :: marks)
      (machine.enter machine.frame) (other.enter other.frame) := by
    rw [both.frame]
    exact .enter mark both.renamed both.around both.depth
  refine ((ih.executeAll entered renamed named).pass .block .block).mono ?_ id
  rintro completion after second after' ⟨more, step⟩
  exact ⟨more, .leave both step (.refl _)⟩

theorem conditional_succ (ih : RenamesWith names rules fuel) {condition : Expr}
    {yes second : Stmt} (both : machine.RenamedAt names marked marks other)
    (namedCondition : condition.Named names.Known) (renamed : yes.Renamed names marks second)
    (named : yes.Named names.Known) :
    StmtAlongside names rules (fuel + 1) marked marks (.conditional condition yes none)
      (.conditional (condition.rename names marks) second none) machine other := by
  apply ((ih.evaluate condition both namedCondition).pass .condition .condition).bind
  rintro value middle mirrored middle' ran ran' ⟨more, first⟩
  cases first.alike with
  | cons alike _ =>
    have truth := ValueIn.truthy_of_face alike.face_eq
    rw [truth]
    split
    next holds =>
      exact ih.execute_next first renamed named (.yes ran holds) (.yes ran' (truth.trans holds))
    next => exact .done ⟨more, first.give .nil⟩

theorem alternative_succ (ih : RenamesWith names rules fuel) {condition : Expr}
    {yes second no secondNo : Stmt} (both : machine.RenamedAt names marked marks other)
    (namedCondition : condition.Named names.Known) (renamed : yes.Renamed names marks second)
    (named : yes.Named names.Known) (renamedNo : no.Renamed names marks secondNo)
    (namedNo : no.Named names.Known) :
    StmtAlongside names rules (fuel + 1) marked marks (.conditional condition yes (some no))
      (.conditional (condition.rename names marks) second (some secondNo)) machine other := by
  apply ((ih.evaluate condition both namedCondition).pass .condition .condition).bind
  rintro value middle mirrored middle' ran ran' ⟨more, first⟩
  cases first.alike with
  | cons alike _ =>
    have truth := ValueIn.truthy_of_face alike.face_eq
    rw [truth]
    split
    next holds =>
      exact ih.execute_next first renamed named (.yes ran holds) (.yes ran' (truth.trans holds))
    next fails =>
      have falsy := Bool.eq_false_iff.mpr fails
      exact ih.execute_next first renamedNo namedNo (.no ran falsy) (.no ran' (truth.trans falsy))

theorem execute_succ (ih : RenamesWith names rules fuel) {stmt second : Stmt}
    (both : machine.RenamedAt names marked marks other) (renamed : stmt.Renamed names marks second)
    (named : stmt.Named names.Known) :
    StmtAlongside names rules (fuel + 1) marked marks stmt second machine other := by
  cases renamed with
  | @expression _ inner =>
    apply ((ih.evaluate inner both named).pass .expression .expression).bind
    rintro value after second after' ran ran' ⟨more, step⟩
    exact .done ⟨more, step.give .nil⟩
  | print => exact ih.print_succ both named
  | @varDecl _ name initializer => exact ih.varDecl_succ name initializer both named
  | block mark renamed => exact ih.block_succ mark both renamed named
  | conditional renamed => exact ih.conditional_succ both named.1 renamed named.2
  | alternative renamed renamedNo =>
    exact ih.alternative_succ both named.1 renamed named.2.1 renamedNo named.2.2
  | @loop _ condition body second renamed =>
    exact (ih.executeLoop condition both named.1 renamed named.2).pass .loop .loop
  | @funDecl _ name params body others mark kept renamed =>
    exact .done ⟨marked, List.prefix_refl _, both.defineClosure kept renamed named,
      (machine.extended_defineClosure name params body).grows.mono fun _ _ _ => trivial, .nil⟩
  | @ret _ keyword value =>
    cases value with
    | none => exact .done ⟨marked, .refl both (.cons (.literal .nil) .nil)⟩
    | some value =>
      apply ((ih.evaluate value both named).pass .returned .returned).bind
      rintro value after second after' ran ran' ⟨more, step⟩
      exact .done ⟨more, step⟩
  | @misplaced _ node =>
    have same : Stmt.Renamed names marks (.misplaced node) (.misplaced node) := .misplaced
    exact .failed ⟨.of_raises (.same _) .misplacedStmt .misplacedStmt (.execute same), marked,
      both.renamed⟩

theorem executeAll_succ (ih : RenamesWith names rules fuel) {stmts others : List Stmt}
    (both : machine.RenamedAt names marked marks other)
    (renamed : Stmt.AllRenamed names marks stmts others)
    (named : Stmt.AllNamed names.Known stmts) :
    Alongside names rules ⟨.executeAll stmts, fuel + 1, machine⟩
      ⟨.executeAll others, fuel + 1, other⟩
      (fun completion after second after' => ∃ more,
        machine.Keeps names marked marks completion.values second.values more after after')
      (Lox.executeAll rules (fuel + 1) stmts machine)
      (Lox.executeAll rules (fuel + 1) others other) := by
  cases renamed with
  | nil => exact .done ⟨marked, .refl both .nil⟩
  | @cons _ first second stmts others one rest =>
    apply ((ih.execute both one named.1).pass .firstStmt .firstStmt).bind
    rintro completion middle second middle' ran ran' ⟨more, step⟩
    rcases CompletionIn.cases_of_values step.alike with ⟨rfl, rfl⟩ | ⟨value, second, rfl, rfl, _⟩
    · refine ((ih.executeAll step.both rest named.2).pass (.otherStmts ran) (.otherStmts ran')).mono
        ?_ id
      rintro completion after second after' ⟨most, later⟩
      exact ⟨most, step.trans later⟩
    · exact .done ⟨more, step⟩

theorem executeLoop_succ (ih : RenamesWith names rules fuel) (condition : Expr) {body second : Stmt}
    (both : machine.RenamedAt names marked marks other) (namedCondition : condition.Named names.Known)
    (renamed : body.Renamed names marks second) (named : body.Named names.Known) :
    Alongside names rules ⟨.executeLoop condition body, fuel + 1, machine⟩
      ⟨.executeLoop (condition.rename names marks) second, fuel + 1, other⟩
      (fun completion after second after' => ∃ more,
        machine.Keeps names marked marks completion.values second.values more after after')
      (Lox.executeLoop rules (fuel + 1) condition body machine)
      (Lox.executeLoop rules (fuel + 1) (condition.rename names marks) second other) := by
  apply ((ih.evaluate condition both namedCondition).pass .loopCondition .loopCondition).bind
  rintro value middle other middle' ran ran' ⟨more, first⟩
  cases first.alike with
  | cons alike _ =>
    -- The condition shows the same on both sides, so they take the same way.
    have truth := ValueIn.truthy_of_face alike.face_eq
    rw [truth]
    split
    next holds =>
      have holdsOther := truth.trans holds
      apply ((ih.execute first.both renamed named).pass (.loopBody ran holds)
        (.loopBody ran' holdsOther)).bind
      rintro completion later second later' went went' ⟨most, step⟩
      have all := first.trans step
      rcases CompletionIn.cases_of_values step.alike with ⟨rfl, rfl⟩ | ⟨value, second, rfl, rfl, _⟩
      · refine ((ih.executeLoop condition step.both namedCondition renamed named).pass
          (.loopAgain ran holds went) (.loopAgain ran' holdsOther went')).mono ?_ id
        rintro completion after second after' ⟨last, again⟩
        exact ⟨last, all.trans again⟩
      · exact .done ⟨most, all⟩
    next => exact .done ⟨more, first.give .nil⟩

end RenamesWith

/-- Whatever a program does that resolves its names, it does with other names. -/
theorem renamesWith (names : Renaming) (lexical : rules.lookup = .lexical) (fuel : Nat) :
    RenamesWith names rules fuel := by
  induction fuel with
  -- Without fuel both stop at once, with the lines that they have printed before.
  | zero =>
    constructor
    case evaluate => exact fun _ _ _ _ _ both _ => .exhausted both.renamed.printed
    case evaluateAll => exact fun _ _ _ _ _ both _ => .exhausted both.renamed.printed
    case call => exact fun _ _ _ _ _ _ _ _ _ both _ _ => .exhausted both.renamed.printed
    case execute => exact fun both _ _ => .exhausted both.renamed.printed
    case executeAll => exact fun both _ _ => .exhausted both.renamed.printed
    case executeLoop => exact fun _ _ _ _ _ _ _ both _ _ _ => .exhausted both.renamed.printed
  | succ fuel ih =>
    exact ⟨fun expr _ _ _ _ => ih.evaluate_succ lexical expr,
      fun exprs _ _ _ _ => ih.evaluateAll_succ exprs,
      fun line _ _ _ _ _ _ _ _ => ih.call_succ line, ih.execute_succ, ih.executeAll_succ,
      fun condition _ _ _ _ _ _ => ih.executeLoop_succ condition⟩

end Lox
