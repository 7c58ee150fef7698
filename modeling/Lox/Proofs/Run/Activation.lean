import Mathlib.Logic.Relation
import Lox.Proofs.Frames.Growth
import Lox.Proofs.Limit.Foreruns
import Lox.Proofs.Run.Position

/-! One activation of a function, turn by turn.

An activation goes through its body with a list of what is still to be done. A turn executes
one statement that holds no other, or opens one that does; what its expressions call is no
turn of its own. No turn goes on behind a return, so an activation that has come to one stays
there.
-/

set_option autoImplicit false

namespace Lox

/-- What an activation still has to do: a statement, the test of a loop after its body, or the
way out of a block. -/
inductive Item where
  | stmt (stmt : Stmt)
  | again (condition : Expr) (body : Stmt)
  | leave (frame depth : Nat)

structure Activation where
  items : List Item
  machine : Machine

def Evaluates (rules : Rules) (expr : Expr) (machine : Machine) (value : Value) (after : Machine) :
    Prop :=
  ∃ fuel, evaluate rules fuel expr machine = .done value after

section
variable {rules : Rules} {expr : Expr} {machine after last : Machine} {value other : Value}

theorem Evaluates.unique (first : Evaluates rules expr machine value after)
    (second : Evaluates rules expr machine other last) : other = value ∧ last = after := by
  obtain ⟨fuel, done⟩ := first
  obtain ⟨more, also⟩ := second
  -- Both hold with the larger of the two amounts of fuel.
  have enough : ∀ {amount most : Nat} {result : Value} {state : Machine}, amount ≤ most →
      evaluate rules amount expr machine = .done result state →
      evaluate rules most expr machine = .done result state := by
    intro amount most result state le ended
    have foreruns := (forerunsWith rules (Tighter.refl rules.limit) le).evaluate expr machine
    change OutcomeIn.Foreruns machine (evaluate rules amount expr machine)
      (evaluate rules most expr machine) at foreruns
    rw [ended] at foreruns
    exact foreruns.2
  have same := (enough (Nat.le_max_left fuel more) done).symm.trans
    (enough (Nat.le_max_right fuel more) also)
  cases same
  exact ⟨rfl, rfl⟩

theorem Evaluates.samePlace (evaluates : Evaluates rules expr machine value after) :
    machine.SamePlace after := by
  obtain ⟨fuel, done⟩ := evaluates
  have restores := Task.restoresWith rules fuel (.evaluate expr) machine
  change (evaluate rules fuel expr machine).Restores machine at restores
  rw [done] at restores
  exact restores

end

namespace Activation

section
variable (rules : Rules)

inductive Turn : Activation → Activation → Prop where
  | expression {items : List Item} {machine after : Machine} {inner : Expr} {value : Value} :
      Evaluates rules inner machine value after →
      Turn ⟨.stmt (.expression inner) :: items, machine⟩ ⟨items, after⟩
  | print {items : List Item} {machine after : Machine} {inner : Expr} {value : Value} :
      Evaluates rules inner machine value after →
      Turn ⟨.stmt (.print inner) :: items, machine⟩ ⟨items, after.print value.display⟩
  | declare {items : List Item} {machine : Machine} {name : Token} :
      Turn ⟨.stmt (.varDecl name none) :: items, machine⟩ ⟨items, machine.define name.lexeme .nil⟩
  | define {items : List Item} {machine after : Machine} {name : Token} {initializer : Expr}
      {value : Value} :
      Evaluates rules initializer machine value after →
      Turn ⟨.stmt (.varDecl name (some initializer)) :: items, machine⟩
        ⟨items, after.define name.lexeme value⟩
  | function {items : List Item} {machine : Machine} {name : Token} {params : List Token}
      {body : List Stmt} :
      Turn ⟨.stmt (.funDecl name params body) :: items, machine⟩
        ⟨items, machine.defineClosure name params body⟩
  | enter {items : List Item} {machine : Machine} {body : List Stmt} :
      Turn ⟨.stmt (.block body) :: items, machine⟩
        ⟨body.map .stmt ++ .leave machine.frame machine.depth :: items, machine.enter machine.frame⟩
  | leave {items : List Item} {machine : Machine} {frame depth : Nat} :
      Turn ⟨.leave frame depth :: items, machine⟩ ⟨items, machine.returnTo frame depth⟩
  | yes {items : List Item} {machine after : Machine} {condition : Expr} {yes : Stmt}
      {no : Option Stmt} {value : Value} :
      Evaluates rules condition machine value after → value.truthy = true →
      Turn ⟨.stmt (.conditional condition yes no) :: items, machine⟩ ⟨.stmt yes :: items, after⟩
  | no {items : List Item} {machine after : Machine} {condition : Expr} {yes : Stmt}
      {no : Option Stmt} {value : Value} :
      Evaluates rules condition machine value after → value.truthy = false →
      Turn ⟨.stmt (.conditional condition yes no) :: items, machine⟩
        ⟨no.toList.map .stmt ++ items, after⟩
  | loop {items : List Item} {machine : Machine} {condition : Expr} {body : Stmt} :
      Turn ⟨.stmt (.loop condition body) :: items, machine⟩ ⟨.again condition body :: items, machine⟩
  | again {items : List Item} {machine after : Machine} {condition : Expr} {body : Stmt}
      {value : Value} :
      Evaluates rules condition machine value after → value.truthy = true →
      Turn ⟨.again condition body :: items, machine⟩
        ⟨.stmt body :: .again condition body :: items, after⟩
  | stop {items : List Item} {machine after : Machine} {condition : Expr} {body : Stmt}
      {value : Value} :
      Evaluates rules condition machine value after → value.truthy = false →
      Turn ⟨.again condition body :: items, machine⟩ ⟨items, after⟩

def Turns : Activation → Activation → Prop := Relation.ReflTransGen (Turn rules)

/-- An activation stands at a return, which gives a value and leaves a state. -/
inductive Returns : Activation → Value → Machine → Prop where
  | bare {items : List Item} {machine : Machine} {keyword : Token} :
      Returns ⟨.stmt (.ret keyword none) :: items, machine⟩ .nil machine
  | value {items : List Item} {machine after : Machine} {keyword : Token} {expr : Expr}
      {value : Value} :
      Evaluates rules expr machine value after →
      Returns ⟨.stmt (.ret keyword (some expr)) :: items, machine⟩ value after

/-- An activation is over: it stands at a return, or nothing is left to do and it gives nil. -/
inductive Over : Activation → Value → Machine → Prop where
  | returns {activation : Activation} {value : Value} {after : Machine} :
      Returns rules activation value after → Over activation value after
  | runsOut {machine : Machine} : Over ⟨[], machine⟩ .nil machine

end

variable {rules : Rules} {activation next other : Activation} {value : Value} {after : Machine}

theorem Turn.unique (first : Turn rules activation next) (second : Turn rules activation other) :
    other = next := by
  cases first with
  | declare | function | enter | leave | loop => cases second; rfl
  | expression one =>
    cases second with
    | expression two => obtain ⟨rfl, rfl⟩ := one.unique two; rfl
  | print one =>
    cases second with
    | print two => obtain ⟨rfl, rfl⟩ := one.unique two; rfl
  | define one =>
    cases second with
    | define two => obtain ⟨rfl, rfl⟩ := one.unique two; rfl
  -- Both turns have evaluated the same condition, so they go the same way.
  | yes one truthy =>
    cases second with
    | yes two => obtain ⟨_, rfl⟩ := one.unique two; rfl
    | no two falsy =>
      obtain ⟨rfl, rfl⟩ := one.unique two
      exact absurd truthy (Bool.eq_false_iff.mp falsy)
  | no one falsy =>
    cases second with
    | yes two truthy =>
      obtain ⟨rfl, rfl⟩ := one.unique two
      exact absurd truthy (Bool.eq_false_iff.mp falsy)
    | no two => obtain ⟨_, rfl⟩ := one.unique two; rfl
  | again one truthy =>
    cases second with
    | again two => obtain ⟨_, rfl⟩ := one.unique two; rfl
    | stop two falsy =>
      obtain ⟨rfl, rfl⟩ := one.unique two
      exact absurd truthy (Bool.eq_false_iff.mp falsy)
  | stop one falsy =>
    cases second with
    | again two truthy =>
      obtain ⟨rfl, rfl⟩ := one.unique two
      exact absurd truthy (Bool.eq_false_iff.mp falsy)
    | stop two => obtain ⟨_, rfl⟩ := one.unique two; rfl

theorem Over.not_turn (isOver : Over rules activation value after) : ¬ Turn rules activation next := by
  intro turn
  cases isOver with
  | runsOut => cases turn
  | returns returns => cases returns <;> cases turn

/-- All that an activation comes to lies on the way to its end. -/
theorem Over.turns {start : Activation} (isOver : Over rules activation value after)
    (ends : Turns rules start activation) (turns : Turns rules start other) :
    Turns rules other activation := by
  rcases Relation.ReflTransGen.total_of_right_unique (fun _ _ _ one two => two.unique one)
    turns ends with onward | beyond
  · exact onward
  · rcases Relation.ReflTransGen.cases_head beyond with same | ⟨next, turn, _⟩
    · exact same ▸ .refl
    · exact absurd turn isOver.not_turn

/-- How things to do end, if an outcome is that of doing them: in front of what stands behind
them, or at a return. -/
def Follows (rules : Rules) (first : List Item) (machine : Machine) (outcome : Outcome Completion) :
    Prop :=
  match outcome with
  | .done .normal after => ∀ items, Turns rules ⟨first ++ items, machine⟩ ⟨items, after⟩
  | .done (.returned value) after => ∀ items, ∃ stop last,
    Turns rules ⟨first ++ items, machine⟩ stop ∧ Returns rules stop value last ∧
      after = last.returnTo machine.frame machine.depth
  | _ => True

namespace Follows

variable {first second : List Item} {machine middle : Machine} {outcome : Outcome Completion}

theorem step (follows : Follows rules second middle outcome) (place : machine.SamePlace middle)
    (turn : ∀ items, Turn rules ⟨first ++ items, machine⟩ ⟨second ++ items, middle⟩) :
    Follows rules first machine outcome := by
  cases outcome with
  | done completion after =>
    cases completion with
    | normal => exact fun items => .head (turn items) (follows items)
    | returned value =>
      intro items
      obtain ⟨stop, last, turns, returns, same⟩ := follows items
      rw [place.frame, place.depth] at same
      exact ⟨stop, last, .head (turn items) turns, returns, same⟩
  | failed failure after => trivial
  | exhausted => trivial

/-- What is done first comes first, and all that stands behind it is left out if it returns. -/
theorem sequence {next : Machine → Outcome Completion} (follows : Follows rules first machine outcome)
    (place : outcome.Restores machine) (goesOn : ∀ middle, Follows rules second middle (next middle)) :
    Follows rules (first ++ second) machine (outcome.bind fun completion middle =>
      match completion with
      | .normal => next middle
      | .returned value => .done (.returned value) middle) := by
  cases outcome with
  | done completion middle =>
    cases completion with
    -- The second part is left out with all that stands behind it.
    | returned value =>
      intro items
      rw [List.append_assoc]
      exact follows (second ++ items)
    | normal =>
      -- What was done first leaves the place as it was, so the second part begins there.
      have samePlace : machine.SamePlace middle := place
      have before : ∀ items, Turns rules ⟨first ++ second ++ items, machine⟩ ⟨second ++ items, middle⟩ :=
        fun items => List.append_assoc first second items ▸ follows (second ++ items)
      have behind := goesOn middle
      simp only [OutcomeIn.bind]
      cases answer : next middle with
      | done completion after =>
        rw [answer] at behind
        cases completion with
        | normal => exact fun items => (before items).trans (behind items)
        | returned value =>
          intro items
          obtain ⟨stop, last, turns, returns, same⟩ := behind items
          rw [samePlace.frame, samePlace.depth] at same
          exact ⟨stop, last, (before items).trans turns, returns, same⟩
      | failed failure after => trivial
      | exhausted => trivial
  | failed failure after => trivial
  | exhausted => trivial

theorem evaluate {fuel : Nat} {expr : Expr} {next : Value → Machine → Outcome Completion}
    (goesOn : ∀ value after, Evaluates rules expr machine value after →
      Follows rules first machine (next value after)) :
    Follows rules first machine ((Lox.evaluate rules fuel expr machine).bind next) := by
  cases answer : Lox.evaluate rules fuel expr machine with
  | done value after => exact goesOn value after ⟨fuel, answer⟩
  | failed failure after => trivial
  | exhausted => trivial

end Follows

structure FollowsWith (rules : Rules) (fuel : Nat) : Prop where
  execute : ∀ stmt machine, Follows rules [.stmt stmt] machine (execute rules fuel stmt machine)
  executeAll : ∀ stmts machine,
    Follows rules (stmts.map .stmt) machine (executeAll rules fuel stmts machine)
  executeLoop : ∀ condition body machine,
    Follows rules [.again condition body] machine (executeLoop rules fuel condition body machine)

namespace FollowsWith

variable {fuel : Nat}

theorem execute_succ (ih : FollowsWith rules fuel) (stmt : Stmt) (machine : Machine) :
    Follows rules [.stmt stmt] machine (Lox.execute rules (fuel + 1) stmt machine) := by
  cases stmt with
  | expression inner =>
    exact .evaluate fun value after evaluates items => .single (.expression evaluates)
  | print inner => exact .evaluate fun value after evaluates items => .single (.print evaluates)
  | varDecl name initializer =>
    cases initializer with
    | none => exact fun items => .single .declare
    | some initializer =>
      exact .evaluate fun value after evaluates items => .single (.define evaluates)
  | block body =>
    -- The frame is left behind the body, unless that returns: then the call leaves it.
    have inside := ih.executeAll body (machine.enter machine.frame)
    have entered : ∀ items, Turn rules ⟨[.stmt (.block body)] ++ items, machine⟩
        ⟨body.map .stmt ++ .leave machine.frame machine.depth :: items,
          machine.enter machine.frame⟩ := fun items => .enter
    rw [execute_block]
    cases answer : Lox.executeAll rules fuel body (machine.enter machine.frame) with
    | done completion after =>
      rw [answer] at inside
      cases completion with
      | normal =>
        exact fun items => (Relation.ReflTransGen.head (entered items) (inside _)).tail .leave
      | returned value =>
        intro items
        obtain ⟨stop, last, turns, returns, rfl⟩ := inside (.leave machine.frame machine.depth :: items)
        exact ⟨stop, last, .head (entered items) turns, returns, rfl⟩
    | failed failure after => trivial
    | exhausted => trivial
  | conditional condition yes no =>
    refine .evaluate fun value after evaluates => ?_
    split
    next truthy => exact (ih.execute yes after).step evaluates.samePlace fun _ => .yes evaluates truthy
    next falsy =>
      have skips := Bool.eq_false_iff.mpr falsy
      cases no with
      | none => exact fun items => .single (.no evaluates skips)
      | some no =>
        exact (ih.execute no after).step evaluates.samePlace fun _ => .no evaluates skips
  | loop condition body =>
    exact (ih.executeLoop condition body machine).step (.refl machine) fun _ => .loop
  | funDecl name params body => exact fun items => .single .function
  | ret keyword value =>
    cases value with
    | none => exact fun items => ⟨_, _, .refl, .bare, rfl⟩
    | some value =>
      refine .evaluate fun result after evaluates items => ⟨_, after, .refl, .value evaluates, ?_⟩
      rw [← evaluates.samePlace.frame, ← evaluates.samePlace.depth]
      rfl
  | misplaced node => trivial

theorem executeAll_succ (ih : FollowsWith rules fuel) (stmts : List Stmt) (machine : Machine) :
    Follows rules (stmts.map .stmt) machine (Lox.executeAll rules (fuel + 1) stmts machine) := by
  cases stmts with
  | nil => exact fun items => .refl
  | cons first others =>
    have place := Task.restoresWith rules fuel (.execute first) machine
    exact (ih.execute first machine).sequence place fun middle => ih.executeAll others middle

theorem executeLoop_succ (ih : FollowsWith rules fuel) (condition : Expr) (body : Stmt)
    (machine : Machine) :
    Follows rules [.again condition body] machine
      (Lox.executeLoop rules (fuel + 1) condition body machine) := by
  refine .evaluate fun value after evaluates => ?_
  split
  next truthy =>
    have place := Task.restoresWith rules fuel (.execute body) after
    have again := (ih.execute body after).sequence place fun middle =>
      ih.executeLoop condition body middle
    exact again.step evaluates.samePlace fun _ => .again evaluates truthy
  next falsy => exact fun items => .single (.stop evaluates (Bool.eq_false_iff.mpr falsy))

end FollowsWith

/-- The turns of an activation lead where its statements end. -/
theorem followsWith (rules : Rules) (fuel : Nat) : FollowsWith rules fuel := by
  induction fuel with
  | zero => constructor <;> intros <;> trivial
  | succ fuel ih => exact ⟨ih.execute_succ, ih.executeAll_succ, ih.executeLoop_succ⟩

end Activation

end Lox
