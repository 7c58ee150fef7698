import Lox.Proofs.Frames.Growth
import Lox.Proofs.Limit.Foreruns
import Lox.Proofs.Scoping.Accepted
import Lox.Proofs.Session.Accounts

/-! Running two lists of statements as one.

Where returns stand only in functions, top-level statements always end normally. So once the first
list is done, the second runs in the state that it left.
-/

set_option autoImplicit false

namespace Lox

variable {rules : Rules} {fuel : Nat}

abbrev OutcomeIn.Normal (outcome : Outcome Completion) : Prop :=
  outcome.Ends (fun completion _ => completion = .normal) fun _ => True

theorem OutcomeIn.ends_any {σ α : Type} (outcome : OutcomeIn σ α) :
    outcome.Ends (fun _ _ => True) fun _ => True := by
  cases outcome <;> trivial

structure NormalWith (rules : Rules) (fuel : Nat) : Prop where
  execute : ∀ stmt machine, stmt.ReturnsInside false → (execute rules fuel stmt machine).Normal
  executeAll : ∀ stmts machine, Stmt.AllReturnInside false stmts →
    (executeAll rules fuel stmts machine).Normal
  executeLoop : ∀ condition body machine, body.ReturnsInside false →
    (executeLoop rules fuel condition body machine).Normal

namespace NormalWith

theorem execute_succ (ih : NormalWith rules fuel) (stmt : Stmt) (machine : Machine)
    (inside : stmt.ReturnsInside false) : (Lox.execute rules (fuel + 1) stmt machine).Normal := by
  cases stmt with
  -- One case for each statement; a return is none of them outside of functions.
  | expression inner =>
    exact (evaluate rules fuel inner machine).ends_any.bind fun _ => rfl
  | print inner =>
    exact (evaluate rules fuel inner machine).ends_any.bind fun _ => rfl
  | varDecl name initializer =>
    cases initializer with
    | none => exact rfl
    | some initializer =>
      exact (evaluate rules fuel initializer machine).ends_any.bind fun _ => rfl
  | block body => exact OutcomeIn.ends_mapState.mpr (ih.executeAll body _ inside)
  | conditional condition yes no =>
    refine (evaluate rules fuel condition machine).ends_any.bind fun _ => ?_
    cases no with
    | none =>
      split
      · exact ih.execute yes _ inside
      · exact rfl
    | some no =>
      split
      · exact ih.execute yes _ inside.1
      · exact ih.execute no _ inside.2
  | loop condition body => exact ih.executeLoop condition body machine inside
  | funDecl name params body => exact rfl
  | ret keyword value => cases inside
  | misplaced node => trivial

theorem executeAll_succ (ih : NormalWith rules fuel) (stmts : List Stmt) (machine : Machine)
    (inside : Stmt.AllReturnInside false stmts) :
    (Lox.executeAll rules (fuel + 1) stmts machine).Normal := by
  cases stmts with
  | nil => exact rfl
  | cons first others =>
    refine (ih.execute first machine inside.1).bind fun {completion middle} normal => ?_
    subst normal
    exact ih.executeAll others middle inside.2

theorem executeLoop_succ (ih : NormalWith rules fuel) (condition : Expr) (body : Stmt)
    (machine : Machine) (inside : body.ReturnsInside false) :
    (Lox.executeLoop rules (fuel + 1) condition body machine).Normal := by
  refine (evaluate rules fuel condition machine).ends_any.bind fun _ => ?_
  split
  · refine (ih.execute body _ inside).bind fun {completion middle} normal => ?_
    subst normal
    exact ih.executeLoop condition body middle inside
  · exact rfl

end NormalWith

theorem normalWith (rules : Rules) (fuel : Nat) : NormalWith rules fuel := by
  induction fuel with
  | zero => constructor <;> intros <;> trivial
  | succ fuel ih => exact ⟨ih.execute_succ, ih.executeAll_succ, ih.executeLoop_succ⟩

theorem executeAll_append (second : List Stmt) (first : List Stmt) : ∀ machine : Machine,
    executeAll rules (fuel + first.length) (first ++ second) machine =
      (executeAll rules (fuel + first.length) first machine).bind fun completion after =>
        match completion with
        | .normal => executeAll rules fuel second after
        | .returned value => .done (.returned value) after := by
  induction first with
  | nil =>
    intro machine
    cases fuel with
    | zero => rfl
    | succ fuel => rfl
  | cons stmt first ih =>
    intro machine
    rw [List.cons_append, List.length_cons, ← Nat.add_assoc, executeAll, executeAll]
    cases execute rules (fuel + first.length) stmt machine with
    | done completion middle =>
      cases completion with
      | normal => exact ih middle
      | returned value => rfl
    | failed failure middle => rfl
    | exhausted => rfl

/-- Where a first list of statements is done, a second one is run in the state it left. -/
theorem interpret_append {first second : List Stmt} {machine after : Machine} {most : Nat}
    (rest : machine.AtRest) (inside : Stmt.AllReturnInside false first)
    (ran : interpret rules most first machine = .done () after)
    (enough : most ≤ fuel + first.length) :
    interpret rules (fuel + first.length) (first ++ second) machine =
      interpret rules fuel second after := by
  have foreruns := (forerunsWith rules (Tighter.refl rules.limit) enough).executeAll first machine
  have grows := (growsWith rules most).executeAll first machine
  have normal := (normalWith rules most).executeAll first machine inside
  unfold interpret at ran
  change OutcomeIn.Foreruns machine (executeAll rules most first machine)
    (executeAll rules (fuel + first.length) first machine) at foreruns
  cases done : executeAll rules most first machine with
  | done completion middle =>
    rw [done] at ran foreruns grows normal
    obtain rfl : completion = .normal := normal
    cases ran
    -- The first list left the globals for no other frame, so going back there changes nothing.
    have same : middle.reset = middle := by
      have frame : middle.frame = Machine.globals := grows.frame.trans rest.frame
      have depth : middle.depth = 0 := grows.depth.trans rest.depth
      rw [Machine.reset, Machine.returnTo, ← frame, ← depth]
    rw [same]
    unfold interpret
    rw [executeAll_append, foreruns.2]
    rfl
  | failed failure middle => rw [done] at ran; cases ran
  | exhausted => rw [done] at ran; cases ran

end Lox
