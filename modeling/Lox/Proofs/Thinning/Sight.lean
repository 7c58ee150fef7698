import Lox.Proofs.Run.Fuel
import Lox.Proofs.Scoping.Shape
import Lox.Proofs.Thinning.Simulation

/-! What a program sees of its frames.

Where all scopes are kept, two machines cannot be told apart: they have printed the same, bind
the same in the frames that were there from the beginning, and every program that goes on in
one of these frames ends in the same way.
-/

set_option autoImplicit false

namespace Lox

variable {kept : List Bool}

/-! ### Trees without distances -/

section

mutual

theorem Expr.Thinned.erase_eq : ∀ {expr slim : Expr}, expr.Thinned kept slim → slim.erase = expr.erase
  | _, _, .literal _ | _, _, .reference _ | _, _, .misplaced _ => rfl
  | _, _, .grouping inner => congrArg Expr.grouping inner.erase_eq
  | _, _, .unary operand => congrArg (Expr.unary _) operand.erase_eq
  | _, _, .binary left right => congrArg₂ (Expr.binary · _ ·) left.erase_eq right.erase_eq
  | _, _, .logical left right => congrArg₂ (Expr.logical · _ ·) left.erase_eq right.erase_eq
  | _, _, .assign value _ => congrArg (Expr.assign _ · none) value.erase_eq
  | _, _, .call callee arguments =>
    congrArg₂ (Expr.call · _ ·) callee.erase_eq arguments.eraseAll_eq

theorem Expr.AllThinned.eraseAll_eq : ∀ {exprs slim : List Expr},
    AllThinned kept exprs slim → eraseAll slim = eraseAll exprs
  | _, _, .nil => rfl
  | _, _, .cons first others => congrArg₂ List.cons first.erase_eq others.eraseAll_eq

end

theorem Expr.erase_option_eq {expr slim : Option Expr} (thinned : Option.Rel (Thinned kept) expr slim) :
    slim.map erase = expr.map erase := by
  cases thinned with
  | none => rfl
  | some thinned => exact congrArg some thinned.erase_eq

end

mutual

theorem Stmt.Thinned.erase_eq : ∀ {kept : List Bool} {stmt slim : Stmt},
    stmt.Thinned kept slim → slim.erase = stmt.erase
  | _, _, _, .expression inner => congrArg Stmt.expression inner.erase_eq
  | _, _, _, .print inner => congrArg Stmt.print inner.erase_eq
  | _, _, _, .varDecl _ initializer => congrArg (Stmt.varDecl _) (Expr.erase_option_eq initializer)
  | _, _, _, .block body => congrArg Stmt.block body.eraseAll_eq
  | _, _, _, .conditional condition yes =>
    congrArg₂ (Stmt.conditional · · none) condition.erase_eq yes.erase_eq
  | _, _, _, .alternative condition yes no => by
    rw [Stmt.erase, condition.erase_eq, yes.erase_eq, no.erase_eq, Stmt.erase]
  | _, _, _, .loop condition body => congrArg₂ Stmt.loop condition.erase_eq body.erase_eq
  | _, _, _, .funDecl _ body => congrArg (Stmt.funDecl _ _) body.eraseAll_eq
  | _, _, _, .ret value => congrArg (Stmt.ret _) (Expr.erase_option_eq value)
  | _, _, _, .misplaced _ => rfl

theorem Stmt.AllThinned.eraseAll_eq : ∀ {kept : List Bool} {stmts slim : List Stmt},
    AllThinned kept stmts slim → eraseAll slim = eraseAll stmts
  | _, _, _, .nil => rfl
  | _, _, _, .cons first others => congrArg₂ List.cons first.erase_eq others.eraseAll_eq

end

section
variable {twins : Twins} {store other : Store Value}

theorem ValueIn.Thinned.outline_eq {value second : Value}
    (thinned : ValueIn.Thinned twins store other value second) : second.outline = value.outline := by
  cases thinned with
  | literal constant => rfl
  | native function => rfl
  | closure _ body =>
    simp only [outline, ValueIn.map, ClosureIn.map, body.eraseAll_eq]

theorem ValueIn.Thinned.outlines_eq {values others : List Value}
    (alike : List.Forall₂ (ValueIn.Thinned twins store other) values others) :
    others.map outline = values.map outline := by
  induction alike with
  | nil => rfl
  | cons first _ ih => rw [List.map_cons, List.map_cons, first.outline_eq, ih]

end

/-! ### What can be seen -/

/-- What was printed is the same, and what is bound in the frames below a bound. Of a
closure its declaration is seen, not its environment. -/
structure Machine.LooksLike (bound : Nat) (machine other : Machine) : Prop where
  printed : other.printed = machine.printed
  closures : other.closures = machine.closures
  readings : other.readings = machine.readings
  bindings : ∀ frame < bound, (other.store.bindings frame).map (Prod.map id ValueIn.outline) =
    (machine.store.bindings frame).map (Prod.map id ValueIn.outline)

theorem Machine.LooksLike.symm {bound : Nat} {machine other : Machine}
    (looks : machine.LooksLike bound other) : other.LooksLike bound machine :=
  ⟨looks.printed.symm, looks.closures.symm, looks.readings.symm,
    fun frame below => (looks.bindings frame below).symm⟩

/-- Two statements end in the same way: with the same values, with the same failure, or without
fuel. -/
def OutcomeIn.LooksLike (bound : Nat) : Outcome Completion → Outcome Completion → Prop :=
  Pairs
    (fun completion after second after' =>
      second.values.map ValueIn.outline = completion.values.map ValueIn.outline ∧
        after.LooksLike bound after')
    (fun failure state second state' => second = failure ∧ state.LooksLike bound state')
    fun state state' => state'.printed = state.printed

theorem OutcomeIn.LooksLike.symm {bound : Nat} {outcome second : Outcome Completion}
    (looks : LooksLike bound outcome second) : LooksLike bound second outcome := by
  cases looks with
  | done same => exact .done ⟨same.1.symm, same.2.symm⟩
  | failed same => exact .failed ⟨same.1.symm, same.2.symm⟩
  | exhausted same => exact .exhausted (Eq.symm same)

/-- Whatever a program goes on with in a frame, and whatever names it gives to the values
that it gets, it ends in the same way from both machines. -/
def Machine.GoOnAlike (rules : Rules) (bound frame : Nat) (values others : List Value)
    (machine other : Machine) : Prop :=
  ∀ depth names stmts fuel, OutcomeIn.LooksLike bound
    (executeAll rules fuel stmts ((machine.returnTo frame depth).defineAll names values))
    (executeAll rules fuel stmts ((other.returnTo frame depth).defineAll names others))

theorem Machine.GoOnAlike.symm {rules : Rules} {bound frame : Nat} {values others : List Value}
    {machine other : Machine} (alike : machine.GoOnAlike rules bound frame values others other) :
    other.GoOnAlike rules bound frame others values machine :=
  fun depth names stmts fuel => (alike depth names stmts fuel).symm

section
variable {bound : Nat} {twins : Twins} {rules : Rules} {machine other : Machine}

theorem Machine.Thinned.looksLike (thinned : machine.Thinned twins other)
    (own : ∀ frame < bound, HasTwin twins frame frame) : machine.LooksLike bound other :=
  ⟨thinned.printed, thinned.closures, thinned.readings, fun frame below =>
    (thinned.store.bindings (own frame below)).map_eq Eq.symm fun alike => alike.outline_eq⟩

theorem OutcomeIn.Thinned.looksLike {mirror : Machine} {outcome second : Outcome Completion}
    (thinned : Thinned twins kept machine mirror CompletionIn.values outcome second)
    (own : ∀ frame < bound, HasTwin twins frame frame) : LooksLike bound outcome second := by
  cases thinned with
  | done holds =>
    obtain ⟨more, step⟩ := holds
    exact .done ⟨ValueIn.Thinned.outlines_eq step.alike,
      step.both.thinned.looksLike fun frame below => (own frame below).mono step.layout⟩
  | failed fails =>
    obtain ⟨same, more, layout, thinned⟩ := fails
    exact .failed ⟨same, thinned.looksLike fun frame below => (own frame below).mono layout⟩
  | exhausted same => exact .exhausted same

theorem Machine.Thinned.goOnAlike (thinned : machine.Thinned twins other)
    (lexical : rules.lookup = .lexical) (own : ∀ frame < bound, HasTwin twins frame frame) {frame : Nat}
    (beside : machine.store.Beside twins other.store [] frame frame) {values others : List Value}
    (alike : List.Forall₂ (ValueIn.Thinned twins machine.store other.store) values others) :
    machine.GoOnAlike rules bound frame values others other := by
  intro depth names stmts fuel
  have back : (machine.returnTo frame depth).ThinnedAt twins [] (other.returnTo frame depth) :=
    ⟨⟨thinned.store, thinned.printed, thinned.closures, thinned.readings⟩, rfl, beside⟩
  have named : ((machine.returnTo frame depth).defineAll names values).ThinnedAt twins []
      ((other.returnTo frame depth).defineAll names others) := back.defineAll rfl alike
  exact ((thinsWith lexical fuel).executeAll (Stmt.allThinned_refl stmts (by simp)) named).looksLike own

end

/-! ### What one run shows of another -/

structure Machine.EndsAlike (rules : Rules) (before : Machine) (completion : Completion)
    (after : Machine) (second : Completion) (after' : Machine) : Prop where
  frame : after.frame = before.frame ∧ after'.frame = before.frame
  depth : after.depth = before.depth ∧ after'.depth = before.depth
  values : second.values.map ValueIn.outline = completion.values.map ValueIn.outline
  looks : after.LooksLike before.store.next after'
  goesOn : ∀ frame < before.store.next,
    after.GoOnAlike rules before.store.next frame completion.values second.values after'

/-- What one statement does from a machine, another does too. Where the first ran out of
fuel, the other has printed at least the same. -/
inductive OutcomeIn.Shows (rules : Rules) (before : Machine) :
    Outcome Completion → Outcome Completion → Prop where
  | done {completion second : Completion} {after after' : Machine} :
      before.EndsAlike rules completion after second after' →
      Shows rules before (.done completion after) (.done second after')
  | failed {failure : Failure} {state state' : Machine} :
      state.LooksLike before.store.next state' →
      state.GoOnAlike rules before.store.next Machine.globals [] [] state' →
      Shows rules before (.failed failure state) (.failed failure state')
  | cut {state : Machine} {other : Outcome Completion} :
      state.Prints other.state → Shows rules before (.cut state) other

theorem Machine.EndsAlike.symm {rules : Rules} {before after after' : Machine}
    {completion second : Completion} (ends : before.EndsAlike rules completion after second after') :
    before.EndsAlike rules second after' completion after :=
  ⟨ends.frame.symm, ends.depth.symm, ends.values.symm, ends.looks.symm,
    fun frame below => (ends.goesOn frame below).symm⟩

theorem Machine.prints_of_eq {machine other : Machine} (same : other.printed = machine.printed) :
    machine.Prints other := by
  unfold Prints
  rw [same]

namespace OutcomeIn

variable {rules : Rules} {before : Machine} {outcome second last : Outcome Completion}

theorem Lasts.prints (lasts : Lasts before outcome second) : outcome.state.Prints second.state := by
  cases outcome with
  | exhausted => exact lasts.2
  | _ =>
    obtain ⟨_, rfl⟩ := lasts
    exact .refl _

theorem Shows.prints (also : Shows rules before outcome second) :
    outcome.state.Prints second.state := by
  cases also with
  | done ends => exact Machine.prints_of_eq ends.looks.printed
  | failed looks => exact Machine.prints_of_eq looks.printed
  | cut prints => exact prints

theorem Shows.of_lasts (also : Shows rules before second last) (lasts : Lasts before outcome second) :
    Shows rules before outcome last := by
  cases outcome with
  | exhausted => exact .cut (lasts.prints.trans also.prints)
  | _ =>
    obtain ⟨_, rfl⟩ := lasts
    exact also

theorem Shows.lasts (also : Shows rules before outcome second) (lasts : Lasts before second last) :
    Shows rules before outcome last := by
  cases also with
  | done ends =>
    obtain ⟨_, rfl⟩ := lasts
    exact .done ends
  | failed looks goesOn =>
    obtain ⟨_, rfl⟩ := lasts
    exact .failed looks goesOn
  | cut prints => exact .cut (prints.trans lasts.prints)

/-- Steps of one machine that end in the same way, whatever the first keeps, show the same. -/
theorem Thinned.shows (lexical : rules.lookup = .lexical) (rooted : before.Rooted)
    (thinned : Thinned before.ownTwins [] before before CompletionIn.values outcome second) :
    Shows rules before outcome second ∧ Shows rules before second outcome := by
  -- Frames of the first machine are their own twins, so both sides can be asked from the same
  -- frame.
  have own : ∀ frame < before.store.next, HasTwin before.ownTwins frame frame :=
    fun _ exist => Machine.hasTwin_own.mpr ⟨exist, rfl⟩
  cases thinned with
  | @done completion after second after' holds =>
    obtain ⟨more, step⟩ := holds
    have still : ∀ frame < before.store.next, HasTwin more frame frame :=
      fun frame exist => (own frame exist).mono step.layout
    have ends : before.EndsAlike rules completion after second after' := by
      refine ⟨⟨step.returns.frame, step.otherReturns.frame⟩,
        ⟨step.returns.depth, step.otherReturns.depth⟩, ValueIn.Thinned.outlines_eq step.alike,
        step.both.thinned.looksLike still, ?_⟩
      intro frame exist
      have beside := rooted.store.beside_self (own _) exist
      exact step.both.thinned.goOnAlike lexical still
        (beside.mono step.layout step.returns.grows step.otherReturns.grows) step.alike
    exact ⟨.done ends, .done ends.symm⟩
  | failed fails =>
    obtain ⟨rfl, more, layout, thinned⟩ := fails
    have still : ∀ frame < before.store.next, HasTwin more frame frame :=
      fun frame exist => (own frame exist).mono layout
    have looks := thinned.looksLike still
    have goesOn := thinned.goOnAlike lexical still thinned.store.bottom (.nil)
    exact ⟨.failed looks goesOn, .failed looks.symm goesOn.symm⟩
  | exhausted same =>
    exact ⟨.cut (Machine.prints_of_eq same), .cut (Machine.prints_of_eq (Eq.symm same))⟩

end OutcomeIn

end Lox
