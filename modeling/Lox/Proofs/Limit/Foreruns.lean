import Lox.Proofs.Frames.Growth
import Lox.Proofs.Values
import Lox.Settings

/-! A step with more fuel and a wider limit on calls.

It does the same as the step with less, unless that one ran out of fuel or was refused a
call for its depth. In these cases it goes on from there. Printing only adds lines, so
then it prints at least what the other has printed.
-/

set_option autoImplicit false

namespace Lox

/-- The same rules with another limit on nested calls. -/
def Rules.limited (rules : Rules) (limit : Option Int) : Rules := { rules with limit := limit }

/-- A limit allows no call that a wider one refuses. -/
def Tighter (limit wider : Option Int) : Prop :=
  ∀ bound ∈ wider, ∃ lower ∈ limit, lower ≤ bound

theorem Tighter.refl (limit : Option Int) : Tighter limit limit :=
  fun bound isBound => ⟨bound, isBound, Int.le_refl _⟩

theorem Tighter.tighterLimit {limit wider ceiling higher : Option Int}
    (tighter : Tighter limit wider) (below : Tighter ceiling higher) :
    Tighter (tighterLimit limit ceiling) (tighterLimit wider higher) := by
  intro bound isBound
  -- The bound is that of one of the two, and each has a lower one on the other side.
  have lower : (∃ lower ∈ limit, lower ≤ bound) ∨ ∃ lower ∈ ceiling, lower ≤ bound := by
    cases wider with
    | none =>
      cases higher with
      | none => cases isBound
      | some upper => exact .inr (below bound isBound)
    | some first =>
      cases higher with
      | none => exact .inl (tighter bound isBound)
      | some second =>
        cases isBound
        rcases Int.le_total first second with le | le
        · rw [Int.min_eq_left le]
          exact .inl (tighter first rfl)
        · rw [Int.min_eq_right le]
          exact .inr (below second rfl)
  rcases lower with ⟨lower, isLower, le⟩ | ⟨lower, isLower, le⟩
  · cases isLower
    cases ceiling with
    | none => exact ⟨lower, rfl, le⟩
    | some other => exact ⟨min lower other, rfl, by omega⟩
  · cases isLower
    cases limit with
    | none => exact ⟨lower, rfl, le⟩
    | some other => exact ⟨min other lower, rfl, by omega⟩

def Failure.IsOverflow : Failure → Prop
  | .runtime error => error.cause = .stackOverflow
  | .fault _ => False

/-- A later machine has printed the lines of an earlier one, and maybe more. -/
def Machine.Prints (before after : Machine) : Prop :=
  before.printed.toList <+: after.printed.toList

theorem Machine.Prints.refl (machine : Machine) : machine.Prints machine := List.prefix_refl _

theorem Machine.Prints.trans {before middle after : Machine} (first : before.Prints middle)
    (second : middle.Prints after) : before.Prints after :=
  List.IsPrefix.trans first second

theorem Machine.prints_print (machine : Machine) (line : String) :
    machine.Prints (machine.print line) := by
  simp [Prints, print]

theorem Machine.prints_defineAll (params : List Token) : ∀ (arguments : List Value)
    (machine : Machine), (machine.defineAll params arguments).printed = machine.printed := by
  induction params with
  | nil => exact fun _ _ => rfl
  | cons param params ih =>
    intro arguments machine
    cases arguments with
    | nil => rfl
    | cons argument arguments => exact ih arguments (machine.define param.lexeme argument)

/-- From the same machine, `other` does what `outcome` does, or goes on where that one
ran out of fuel or was refused a call. -/
def OutcomeIn.Foreruns {α : Type} (before : Machine) (outcome other : Outcome α) : Prop :=
  before.Prints other.state ∧
    match outcome with
    | .done value after => other = .done value after
    | .failed failure after =>
      other = .failed failure after ∨ failure.IsOverflow ∧ after.Prints other.state
    | .cut after => after.Prints other.state

namespace OutcomeIn.Foreruns

variable {α β : Type} {before : Machine} {outcome other : Outcome α}

theorem same (prints : before.Prints outcome.state) : Foreruns before outcome outcome := by
  cases outcome with
  | done value after => exact ⟨prints, rfl⟩
  | failed failure after => exact ⟨prints, .inl rfl⟩
  | exhausted => exact ⟨prints, .refl _⟩

theorem ofExcept (result : Except Failure α) (machine : Machine) :
    Foreruns machine (.ofExcept result machine) (.ofExcept result machine) := by
  cases result <;> exact same (.refl machine)

theorem after {earlier : Machine} (foreruns : Foreruns before outcome other)
    (prints : earlier.Prints before) : Foreruns earlier outcome other :=
  ⟨prints.trans foreruns.1, foreruns.2⟩

theorem bind {next further : α → Machine → Outcome β} (foreruns : Foreruns before outcome other)
    (goesOn : ∀ value after, Foreruns after (next value after) (further value after)) :
    Foreruns before (outcome.bind next) (other.bind further) := by
  -- Whatever follows prints only more.
  have prints : other.state.Prints (other.bind further).state := by
    cases other with
    | done value after => exact (goesOn value after).1
    | failed failure after => exact .refl _
    | exhausted => exact .refl _
  refine ⟨foreruns.1.trans prints, ?_⟩
  cases outcome with
  | done value after =>
    obtain ⟨_, rfl⟩ := foreruns
    exact (goesOn value after).2
  | failed failure after =>
    rcases foreruns.2 with rfl | ⟨overflow, ahead⟩
    · exact .inl rfl
    · exact .inr ⟨overflow, ahead.trans prints⟩
  | exhausted => exact foreruns.2.trans prints

theorem returnTo {frame depth : Nat} (foreruns : Foreruns before outcome other) :
    Foreruns before (outcome.mapState (·.returnTo frame depth))
      (other.mapState (·.returnTo frame depth)) := by
  have prints : ∀ machine : Machine, machine.Prints other.state →
      machine.Prints (other.mapState (·.returnTo frame depth)).state := by
    intro machine ahead
    cases other <;> exact ahead
  refine ⟨prints before foreruns.1, ?_⟩
  cases outcome with
  | done value after =>
    obtain ⟨_, rfl⟩ := foreruns
    rfl
  | failed failure after =>
    rcases foreruns.2 with rfl | ⟨overflow, ahead⟩
    · exact .inl rfl
    · exact .inr ⟨overflow, prints _ ahead⟩
  | exhausted => exact prints _ foreruns.2

theorem ahead (foreruns : Foreruns before outcome other) : outcome.state.Prints other.state := by
  cases outcome with
  | done value after =>
    obtain ⟨_, rfl⟩ := foreruns
    exact .refl _
  | failed failure after =>
    rcases foreruns.2 with rfl | ⟨_, ahead⟩
    · exact .refl _
    · exact ahead
  | exhausted => exact foreruns.2

end OutcomeIn.Foreruns

/-- Under a wider limit a call is answered in the same way, unless its depth was the
reason to refuse it. -/
theorem Tighter.refusal? {limit wider : Option Int} (tighter : Tighter limit wider) (rules : Rules)
    (callee : Value) (count depth : Nat) :
    (rules.limited limit).refusal? callee count depth = some .stackOverflow ∨
      (rules.limited limit).refusal? callee count depth =
        (rules.limited wider).refusal? callee count depth := by
  unfold Rules.refusal?
  cases callee.arity? with
  | none => exact .inr rfl
  | some arity =>
    by_cases differs : count ≠ arity
    · simp only [if_pos differs, or_true]
    · simp only [if_neg differs, Rules.limited]
      -- The depth is compared last, so all other reasons are the same under both limits.
      by_cases reached : limit.any (fun (bound : Int) => bound ≤ depth) = true
      · exact .inl (if_pos reached)
      · refine .inr ?_
        cases wider with
        | none => exact if_neg reached
        | some bound =>
          obtain ⟨lower, isLower, below⟩ := tighter bound rfl
          cases isLower
          have notReached : ¬ (some bound).any (fun (bound : Int) => bound ≤ depth) = true := by
            simp only [Option.any_some, decide_eq_true_eq] at reached ⊢
            omega
          exact (if_neg reached).trans (if_neg notReached).symm

structure ForerunsWith (rules wider : Rules) (fuel more : Nat) : Prop where
  evaluate : ∀ expr machine, OutcomeIn.Foreruns machine
    (evaluate rules fuel expr machine) (evaluate wider more expr machine)
  evaluateAll : ∀ exprs machine, OutcomeIn.Foreruns machine
    (evaluateAll rules fuel exprs machine) (evaluateAll wider more exprs machine)
  call : ∀ callee arguments line machine, OutcomeIn.Foreruns machine
    (call rules fuel callee arguments line machine) (call wider more callee arguments line machine)
  execute : ∀ stmt machine, OutcomeIn.Foreruns machine
    (execute rules fuel stmt machine) (execute wider more stmt machine)
  executeAll : ∀ stmts machine, OutcomeIn.Foreruns machine
    (executeAll rules fuel stmts machine) (executeAll wider more stmts machine)
  executeLoop : ∀ condition body machine, OutcomeIn.Foreruns machine
    (executeLoop rules fuel condition body machine) (executeLoop wider more condition body machine)

namespace ForerunsWith

open OutcomeIn (Foreruns)

variable {rules : Rules} {limit wider : Option Int} {fuel more : Nat}

theorem evaluate_succ (ih : ForerunsWith (rules.limited limit) (rules.limited wider) fuel more)
    (expr : Expr) (machine : Machine) :
    Foreruns machine (Lox.evaluate (rules.limited limit) (fuel + 1) expr machine)
      (Lox.evaluate (rules.limited wider) (more + 1) expr machine) := by
  cases expr with
  | literal value => exact .same (.refl machine)
  | grouping inner => exact ih.evaluate inner machine
  | unary operator operand =>
    apply (ih.evaluate operand machine).bind
    exact fun value after => .ofExcept _ after
  | binary left operator right =>
    apply (ih.evaluate left machine).bind
    intro first middle
    apply (ih.evaluate right middle).bind
    exact fun second after => .ofExcept _ after
  | logical left operator right =>
    apply (ih.evaluate left machine).bind
    intro first middle
    split
    · exact .same (.refl middle)
    · exact ih.evaluate right middle
  | reference name distance => exact .ofExcept _ machine
  | assign name value distance =>
    apply (ih.evaluate value machine).bind
    intro result after
    -- Where a name is found does not depend on the limit.
    simp only [Rules.limited]
    cases after.locate rules.lookup name distance with
    | ok found => exact .same (.refl after)
    | error failure => exact .same (.refl after)
  | call callee paren arguments =>
    apply (ih.evaluate callee machine).bind
    intro function middle
    apply (ih.evaluateAll arguments middle).bind
    exact fun values after => ih.call function values paren.line after
  | misplaced node => exact .same (.refl machine)

theorem evaluateAll_succ (ih : ForerunsWith (rules.limited limit) (rules.limited wider) fuel more)
    (exprs : List Expr) (machine : Machine) :
    Foreruns machine (Lox.evaluateAll (rules.limited limit) (fuel + 1) exprs machine)
      (Lox.evaluateAll (rules.limited wider) (more + 1) exprs machine) := by
  cases exprs with
  | nil => exact .same (.refl machine)
  | cons first others =>
    apply (ih.evaluate first machine).bind
    intro value middle
    apply (ih.evaluateAll others middle).bind
    exact fun values after => .same (.refl after)

theorem call_answered (ih : ForerunsWith (rules.limited limit) (rules.limited wider) fuel more)
    (callee : Value) (arguments : List Value) (line : Int) (machine : Machine)
    (same : (rules.limited limit).refusal? callee arguments.length machine.depth =
      (rules.limited wider).refusal? callee arguments.length machine.depth) :
    Foreruns machine (Lox.call (rules.limited limit) (fuel + 1) callee arguments line machine)
      (Lox.call (rules.limited wider) (more + 1) callee arguments line machine) := by
  -- The limits answer alike here, so that only the body has to be compared.
  cases refused : (rules.limited wider).refusal? callee arguments.length machine.depth with
  | some cause =>
    rw [call_of_refused refused, call_of_refused (same.trans refused)]
    exact .same (.refl machine)
  | none =>
    have accepted := same.trans refused
    cases callee with
    | literal value => cases refused
    | native function =>
      cases function
      rw [Lox.call, Lox.call, refused, accepted]
      exact .same (.refl machine)
    | closure function =>
      rw [call_closure _ more line refused, call_closure _ fuel line accepted]
      -- Binding the parameters prints nothing.
      have entered : machine.Prints (machine.enterCall function arguments) := by
        unfold Machine.Prints Machine.enterCall
        rw [Machine.prints_defineAll]
        exact List.prefix_refl _
      apply Foreruns.returnTo
      apply Foreruns.after _ entered
      apply (ih.executeAll function.body _).bind
      exact fun completion after => .same (.refl after)

theorem call_succ (tighter : Tighter limit wider)
    (ih : ForerunsWith (rules.limited limit) (rules.limited wider) fuel more)
    (self : ForerunsWith (rules.limited wider) (rules.limited wider) more more)
    (callee : Value) (arguments : List Value) (line : Int) (machine : Machine) :
    Foreruns machine (Lox.call (rules.limited limit) (fuel + 1) callee arguments line machine)
      (Lox.call (rules.limited wider) (more + 1) callee arguments line machine) := by
  rcases tighter.refusal? rules callee arguments.length machine.depth with refused | same
  · rw [call_of_refused refused]
    have prints := (call_answered self callee arguments line machine rfl).1
    exact ⟨prints, .inr ⟨rfl, prints⟩⟩
  · exact call_answered ih callee arguments line machine same

theorem execute_succ (ih : ForerunsWith (rules.limited limit) (rules.limited wider) fuel more)
    (stmt : Stmt) (machine : Machine) :
    Foreruns machine (Lox.execute (rules.limited limit) (fuel + 1) stmt machine)
      (Lox.execute (rules.limited wider) (more + 1) stmt machine) := by
  cases stmt with
  | expression inner =>
    apply (ih.evaluate inner machine).bind
    exact fun value after => .same (.refl after)
  | print inner =>
    apply (ih.evaluate inner machine).bind
    exact fun value after => .same (after.prints_print value.display)
  | varDecl name initializer =>
    cases initializer with
    | none => exact .same (.refl machine)
    | some initializer =>
      apply (ih.evaluate initializer machine).bind
      exact fun value after => .same (.refl after)
  | block body =>
    rw [execute_block, execute_block]
    apply Foreruns.returnTo
    exact (ih.executeAll body _).after (.refl machine)
  | conditional condition yes no =>
    apply (ih.evaluate condition machine).bind
    intro value middle
    split
    · exact ih.execute yes middle
    · cases no with
      | none => exact .same (.refl middle)
      | some no => exact ih.execute no middle
  | loop condition body => exact ih.executeLoop condition body machine
  | funDecl name params body => exact .same (.refl machine)
  | ret keyword value =>
    cases value with
    | none => exact .same (.refl machine)
    | some value =>
      apply (ih.evaluate value machine).bind
      exact fun result after => .same (.refl after)
  | misplaced node => exact .same (.refl machine)

theorem executeAll_succ (ih : ForerunsWith (rules.limited limit) (rules.limited wider) fuel more)
    (stmts : List Stmt) (machine : Machine) :
    Foreruns machine (Lox.executeAll (rules.limited limit) (fuel + 1) stmts machine)
      (Lox.executeAll (rules.limited wider) (more + 1) stmts machine) := by
  cases stmts with
  | nil => exact .same (.refl machine)
  | cons first others =>
    apply (ih.execute first machine).bind
    intro completion middle
    cases completion with
    | normal => exact ih.executeAll others middle
    | returned value => exact .same (.refl middle)

theorem executeLoop_succ (ih : ForerunsWith (rules.limited limit) (rules.limited wider) fuel more)
    (condition : Expr) (body : Stmt) (machine : Machine) :
    Foreruns machine (Lox.executeLoop (rules.limited limit) (fuel + 1) condition body machine)
      (Lox.executeLoop (rules.limited wider) (more + 1) condition body machine) := by
  apply (ih.evaluate condition machine).bind
  intro value middle
  split
  · apply (ih.execute body middle).bind
    intro completion later
    cases completion with
    | normal => exact ih.executeLoop condition body later
    | returned value => exact .same (.refl later)
  · exact .same (.refl middle)

theorem succ (ih : ForerunsWith (rules.limited limit) (rules.limited wider) fuel more)
    (calls : ∀ callee arguments line machine, Foreruns machine
      (Lox.call (rules.limited limit) (fuel + 1) callee arguments line machine)
      (Lox.call (rules.limited wider) (more + 1) callee arguments line machine)) :
    ForerunsWith (rules.limited limit) (rules.limited wider) (fuel + 1) (more + 1) :=
  ⟨evaluate_succ ih, evaluateAll_succ ih, calls, execute_succ ih, executeAll_succ ih,
    executeLoop_succ ih⟩

/-- What steps print they add to what was printed before them. -/
theorem self (rules : Rules) (limit : Option Int) :
    ∀ fuel, ForerunsWith (rules.limited limit) (rules.limited limit) fuel fuel := by
  intro fuel
  induction fuel with
  | zero =>
    constructor <;> intros <;> exact .same (.refl _)
  | succ fuel ih =>
    exact ih.succ fun callee arguments line machine =>
      call_answered ih callee arguments line machine rfl

end ForerunsWith

/-- Steps with less fuel and a tighter limit on calls forerun those with more. -/
theorem forerunsWith (rules : Rules) {limit wider : Option Int} (tighter : Tighter limit wider) :
    ∀ {fuel more : Nat}, fuel ≤ more →
      ForerunsWith (rules.limited limit) (rules.limited wider) fuel more := by
  intro fuel
  induction fuel with
  | zero =>
    -- Without fuel nothing is done, and the others print only more.
    intro more _
    have prints := ForerunsWith.self rules wider more
    exact ⟨fun expr machine => ⟨(prints.evaluate expr machine).1, (prints.evaluate expr machine).1⟩,
      fun exprs machine =>
        ⟨(prints.evaluateAll exprs machine).1, (prints.evaluateAll exprs machine).1⟩,
      fun callee arguments line machine =>
        ⟨(prints.call callee arguments line machine).1,
          (prints.call callee arguments line machine).1⟩,
      fun stmt machine => ⟨(prints.execute stmt machine).1, (prints.execute stmt machine).1⟩,
      fun stmts machine => ⟨(prints.executeAll stmts machine).1, (prints.executeAll stmts machine).1⟩,
      fun condition body machine =>
        ⟨(prints.executeLoop condition body machine).1,
          (prints.executeLoop condition body machine).1⟩⟩
  | succ fuel ih =>
    intro more enough
    obtain ⟨more, rfl⟩ := Nat.exists_eq_add_of_lt enough
    have larger := @ih (fuel + more) (by omega)
    exact larger.succ (larger.call_succ tighter (.self rules wider _))

end Lox
