import Lox.Proofs.Frames.Preservation
import Lox.Proofs.Halting.Trees
import Lox.Proofs.Run.Position

/-! Steps that come to an end.

Where no closure has a loop, only calls can go on and on, and each call that is accepted
uses up one of those that the limit leaves. So the measure is the number of calls left, and
below it the tree: a called body is no part of the tree that calls it, but it has one call
less to make.
-/

set_option autoImplicit false

namespace Lox

/-- No loop stands in the body of a closure. -/
def ValueIn.LoopFree {ε : Type} : ValueIn ε → Prop
  | .closure function => Stmt.AllLoopFree function.body
  | .literal _ | .native _ => True

def Machine.LoopFree (machine : Machine) : Prop :=
  ∀ (id : Nat) (name : String) (value : Value),
    machine.store.value? id name = some value → value.LoopFree

namespace Machine.LoopFree

variable {machine : Machine} {value : Value}

theorem replace (free : machine.LoopFree) (found : Nat) (name : String) (freeValue : value.LoopFree) :
    (machine.replace found name value).LoopFree := by
  intro id other read bound
  change (machine.store.put found name value).value? id other = some read at bound
  by_cases exist : found < machine.store.next
  · rw [Store.value?_put exist] at bound
    split at bound
    · cases bound
      exact freeValue
    · exact free id other read bound
  · rw [Store.put_of_le (Nat.le_of_not_lt exist)] at bound
    exact free id other read bound

theorem define (free : machine.LoopFree) (name : String) (freeValue : value.LoopFree) :
    (machine.define name value).LoopFree :=
  free.replace machine.frame name freeValue

theorem defineClosure (free : machine.LoopFree) (name : Token) (params : List Token)
    {body : List Stmt} (freeBody : Stmt.AllLoopFree body) :
    (machine.defineClosure name params body).LoopFree := by
  intro id other read bound
  exact free.define name.lexeme
    (show (ValueIn.closure ⟨machine.closures, name, params, body, machine.frame⟩).LoopFree
      from freeBody) id other read bound

theorem enter (free : machine.LoopFree) (parent : Nat) : (machine.enter parent).LoopFree := by
  intro id name value bound
  change (machine.store.add (some parent)).value? id name = some value at bound
  rw [Store.value?_add] at bound
  exact free id name value bound

theorem enterCall (free : machine.LoopFree) (function : Closure) {arguments : List Value}
    (freeAll : ∀ argument ∈ arguments, argument.LoopFree) :
    (machine.enterCall function arguments).LoopFree := by
  have bindAll : ∀ (params : List Token) (arguments : List Value) (machine : Machine),
      machine.LoopFree → (∀ argument ∈ arguments, argument.LoopFree) →
      (machine.defineAll params arguments).LoopFree := by
    intro params
    induction params with
    | nil => exact fun _ _ free _ => free
    | cons param params ih =>
      intro arguments machine free freeAll
      cases arguments with
      | nil => exact free
      | cons argument arguments =>
        obtain ⟨first, others⟩ := List.forall_mem_cons.mp freeAll
        exact ih arguments _ (free.define param.lexeme first) others
  exact bindAll _ _ _ (free.enter function.env) freeAll

theorem read (free : machine.LoopFree) {lookup : Lookup} {name : Token} {distance : Option Nat}
    (same : machine.read lookup name distance = .ok value) : value.LoopFree := by
  obtain ⟨id, bound⟩ := value?_of_read same
  exact free id name.lexeme value bound

end Machine.LoopFree

namespace OutcomeIn

variable {α β : Type} {depth : Nat} {free : α → Prop} {freeNext : β → Prop}

/-- The step has come to an end. If it ended well, it did so at a depth; and there is no
closure with a loop in what it gives and leaves. -/
def Halts (outcome : Outcome α) (depth : Nat) (free : α → Prop) : Prop :=
  match outcome with
  | .done value after => free value ∧ after.LoopFree ∧ after.depth = depth
  | .failed _ after => after.LoopFree
  | .cut _ => False

def HaltsAt (steps : Nat → Outcome α) (depth : Nat) (free : α → Prop) : Prop :=
  ∃ enough outcome, Halts outcome depth free ∧ ∀ fuel, enough ≤ fuel → steps fuel = outcome

theorem Halts.at_once {outcome : Outcome α} (halts : outcome.Halts depth free) :
    HaltsAt (fun _ => outcome) depth free :=
  ⟨0, outcome, halts, fun _ _ => rfl⟩

theorem halts_ofExcept {result : Except Failure α} {machine : Machine} (free_ : machine.LoopFree)
    (ok : ∀ value, result = .ok value → free value) :
    (ofExcept result machine).Halts machine.depth free := by
  cases result with
  | ok value => exact ⟨ok value rfl, free_, rfl⟩
  | error failure => exact free_

namespace HaltsAt

variable {steps : Nat → Outcome α} {next : Nat → α → Machine → Outcome β}

theorem succ (halts : HaltsAt (fun fuel => steps (fuel + 1)) depth free) :
    HaltsAt steps depth free := by
  obtain ⟨enough, outcome, ends, same⟩ := halts
  refine ⟨enough + 1, outcome, ends, fun fuel more => ?_⟩
  obtain ⟨fuel, rfl⟩ : ∃ less, fuel = less + 1 := ⟨fuel - 1, by omega⟩
  exact same fuel (Nat.le_of_succ_le_succ more)

theorem bind (halts : HaltsAt steps depth free)
    (goesOn : ∀ value after, free value → after.LoopFree → after.depth = depth →
      HaltsAt (fun fuel => next fuel value after) depth freeNext) :
    HaltsAt (fun fuel => (steps fuel).bind (next fuel)) depth freeNext := by
  obtain ⟨enough, outcome, ends, same⟩ := halts
  cases outcome with
  | done value after =>
    obtain ⟨freeValue, freeAfter, atDepth⟩ := ends
    obtain ⟨more, last, endsLast, sameLast⟩ := goesOn value after freeValue freeAfter atDepth
    refine ⟨max enough more, last, endsLast, fun fuel larger => ?_⟩
    simp only
    rw [same fuel (by omega)]
    exact sameLast fuel (by omega)
  | failed failure after =>
    refine ⟨enough, .failed failure after, ends, fun fuel larger => ?_⟩
    simp only
    rw [same fuel larger]
    rfl
  | exhausted => exact ends.elim

theorem returnTo {inner : Nat} (halts : HaltsAt steps inner free) (frame depth : Nat) :
    HaltsAt (fun fuel => (steps fuel).mapState (·.returnTo frame depth)) depth free := by
  obtain ⟨enough, outcome, ends, same⟩ := halts
  refine ⟨enough, outcome.mapState (·.returnTo frame depth), ?_, fun fuel larger => ?_⟩
  · cases outcome with
    | done value after => exact ⟨ends.1, ends.2.1, rfl⟩
    | failed failure after => exact ends
    | exhausted => exact ends
  · simp only
    rw [same fuel larger]

end HaltsAt

end OutcomeIn

open OutcomeIn (HaltsAt)

def CallsHalt (rules : Rules) (depth : Nat) : Prop :=
  ∀ (callee : Value) (arguments : List Value) (line : Int) (machine : Machine), callee.LoopFree →
    (∀ argument ∈ arguments, argument.LoopFree) → machine.LoopFree → machine.depth = depth →
    HaltsAt (fun fuel => call rules fuel callee arguments line machine) depth ValueIn.LoopFree

section
variable {rules : Rules} {depth : Nat}

mutual

theorem Expr.halts (calls : CallsHalt rules depth) : ∀ (expr : Expr) (machine : Machine),
    machine.LoopFree → machine.depth = depth →
    HaltsAt (fun fuel => evaluate rules fuel expr machine) depth ValueIn.LoopFree
  -- By recursion on the tree: operands are smaller, and a call is left to `calls`.
  | .literal value, machine, free, atDepth => .succ (OutcomeIn.Halts.at_once ⟨trivial, free, atDepth⟩)
  | .grouping inner, machine, free, atDepth => .succ (inner.halts calls machine free atDepth)
  | .unary operator operand, machine, free, atDepth => by
    refine .succ ((operand.halts calls machine free atDepth).bind fun value after _ freeAfter same => ?_)
    rw [← same]
    refine (OutcomeIn.halts_ofExcept freeAfter fun result ok => ?_).at_once
    obtain ⟨constant, rfl⟩ := Operator.unary_literal ok
    trivial
  | .binary left operator right, machine, free, atDepth => by
    refine .succ ((left.halts calls machine free atDepth).bind fun first middle _ freeMiddle same => ?_)
    refine (right.halts calls middle freeMiddle same).bind fun second after _ freeAfter same => ?_
    rw [← same]
    refine (OutcomeIn.halts_ofExcept freeAfter fun result ok => ?_).at_once
    obtain ⟨constant, rfl⟩ := Operator.binary_literal ok
    trivial
  | .logical left operator right, machine, free, atDepth => by
    refine .succ ((left.halts calls machine free atDepth).bind
      fun first middle freeFirst freeMiddle same => ?_)
    split
    · exact OutcomeIn.Halts.at_once ⟨freeFirst, freeMiddle, same⟩
    · exact right.halts calls middle freeMiddle same
  | .reference name distance, machine, free, atDepth => by
    subst atDepth
    exact .succ (OutcomeIn.halts_ofExcept free fun value ok => free.read ok).at_once
  | .assign name value distance, machine, free, atDepth => by
    refine .succ ((value.halts calls machine free atDepth).bind
      fun result after freeResult freeAfter same => ?_)
    split
    · exact OutcomeIn.Halts.at_once ⟨freeResult, freeAfter.replace _ _ freeResult, same⟩
    · exact OutcomeIn.Halts.at_once freeAfter
  | .call callee paren arguments, machine, free, atDepth => by
    refine .succ ((callee.halts calls machine free atDepth).bind
      fun function middle freeFunction freeMiddle same => ?_)
    refine (allHalt calls arguments middle freeMiddle same).bind
      fun values after freeValues freeAfter same => ?_
    exact calls function values paren.line after freeFunction freeValues freeAfter same
  | .misplaced node, machine, free, _ => .succ (OutcomeIn.Halts.at_once free)

theorem Expr.allHalt (calls : CallsHalt rules depth) : ∀ (exprs : List Expr) (machine : Machine),
    machine.LoopFree → machine.depth = depth →
    HaltsAt (fun fuel => evaluateAll rules fuel exprs machine) depth
      fun values => ∀ value ∈ values, value.LoopFree
  | [], machine, free, atDepth => .succ (OutcomeIn.Halts.at_once ⟨nofun, free, atDepth⟩)
  | first :: others, machine, free, atDepth => by
    refine .succ ((first.halts calls machine free atDepth).bind
      fun value middle freeValue freeMiddle same => ?_)
    refine (allHalt calls others middle freeMiddle same).bind
      fun values after freeValues freeAfter same => ?_
    exact OutcomeIn.Halts.at_once ⟨List.forall_mem_cons.mpr ⟨freeValue, freeValues⟩, freeAfter, same⟩

end

def CompletionIn.LoopFree (completion : Completion) : Prop :=
  ∀ value ∈ completion.values, value.LoopFree

theorem CompletionIn.loopFree_normal : (normal : Completion).LoopFree := nofun

theorem Stmt.halts_varDecl (calls : CallsHalt rules depth) (name : Token) (initializer : Option Expr)
    {machine : Machine} (free : machine.LoopFree) (atDepth : machine.depth = depth) :
    HaltsAt (fun fuel => execute rules fuel (.varDecl name initializer) machine) depth
      CompletionIn.LoopFree := by
  cases initializer with
  | none =>
    have freeNil : (ValueIn.literal .nil : Value).LoopFree := trivial
    exact .succ (OutcomeIn.Halts.at_once
      ⟨CompletionIn.loopFree_normal, free.define name.lexeme freeNil, atDepth⟩)
  | some initializer =>
    refine .succ ((initializer.halts calls machine free atDepth).bind
      fun value after freeValue freeAfter same => ?_)
    exact OutcomeIn.Halts.at_once
      ⟨CompletionIn.loopFree_normal, freeAfter.define name.lexeme freeValue, same⟩

theorem Stmt.halts_ret (calls : CallsHalt rules depth) (keyword : Token) (value : Option Expr)
    {machine : Machine} (free : machine.LoopFree) (atDepth : machine.depth = depth) :
    HaltsAt (fun fuel => execute rules fuel (.ret keyword value) machine) depth
      CompletionIn.LoopFree := by
  cases value with
  | none =>
    exact .succ (OutcomeIn.Halts.at_once ⟨List.forall_mem_singleton.mpr trivial, free, atDepth⟩)
  | some value =>
    refine .succ ((value.halts calls machine free atDepth).bind
      fun result after freeResult freeAfter same => ?_)
    exact OutcomeIn.Halts.at_once ⟨List.forall_mem_singleton.mpr freeResult, freeAfter, same⟩

mutual

theorem Stmt.halts (calls : CallsHalt rules depth) : ∀ (stmt : Stmt) (machine : Machine),
    stmt.LoopFree → machine.LoopFree → machine.depth = depth →
    HaltsAt (fun fuel => execute rules fuel stmt machine) depth CompletionIn.LoopFree
  | .expression inner, machine, _, free, atDepth =>
    .succ ((inner.halts calls machine free atDepth).bind fun _ _ _ freeAfter same =>
      OutcomeIn.Halts.at_once ⟨CompletionIn.loopFree_normal, freeAfter, same⟩)
  | .print inner, machine, _, free, atDepth =>
    .succ ((inner.halts calls machine free atDepth).bind fun _ _ _ freeAfter same =>
      OutcomeIn.Halts.at_once ⟨CompletionIn.loopFree_normal, freeAfter, same⟩)
  | .varDecl name initializer, machine, _, free, atDepth => halts_varDecl calls name initializer free atDepth
  | .block body, machine, freeBody, free, atDepth => by
    have inner := allHalt calls body (machine.enter machine.frame) freeBody (free.enter _) atDepth
    apply HaltsAt.succ
    simp only [execute_block]
    exact atDepth ▸ inner.returnTo machine.frame machine.depth
  | .conditional condition yes none, machine, freeYes, free, atDepth => by
    refine .succ ((condition.halts calls machine free atDepth).bind fun value middle _ freeMiddle same => ?_)
    split
    · exact yes.halts calls middle freeYes freeMiddle same
    · exact OutcomeIn.Halts.at_once ⟨CompletionIn.loopFree_normal, freeMiddle, same⟩
  | .conditional condition yes (some no), machine, freeBranches, free, atDepth => by
    refine .succ ((condition.halts calls machine free atDepth).bind fun value middle _ freeMiddle same => ?_)
    split
    · exact yes.halts calls middle freeBranches.1 freeMiddle same
    · exact no.halts calls middle freeBranches.2 freeMiddle same
  | .loop _ _, _, freeLoop, _, _ => freeLoop.elim
  | .funDecl name params body, machine, freeBody, free, atDepth =>
    .succ (OutcomeIn.Halts.at_once
      ⟨CompletionIn.loopFree_normal, free.defineClosure name params freeBody, atDepth⟩)
  | .ret keyword value, machine, _, free, atDepth => halts_ret calls keyword value free atDepth
  | .misplaced node, machine, _, free, _ => .succ (OutcomeIn.Halts.at_once free)

theorem Stmt.allHalt (calls : CallsHalt rules depth) : ∀ (stmts : List Stmt) (machine : Machine),
    Stmt.AllLoopFree stmts → machine.LoopFree → machine.depth = depth →
    HaltsAt (fun fuel => executeAll rules fuel stmts machine) depth CompletionIn.LoopFree
  | [], machine, _, free, atDepth =>
    .succ (OutcomeIn.Halts.at_once ⟨CompletionIn.loopFree_normal, free, atDepth⟩)
  | first :: others, machine, freeAll, free, atDepth => by
    refine .succ ((first.halts calls machine freeAll.1 free atDepth).bind
      fun completion middle freeCompletion freeMiddle same => ?_)
    cases completion with
    | normal => exact allHalt calls others middle freeAll.2 freeMiddle same
    | returned value => exact OutcomeIn.Halts.at_once ⟨freeCompletion, freeMiddle, same⟩

end

theorem CompletionIn.LoopFree.value {completion : Completion} (free : completion.LoopFree) :
    completion.value.LoopFree := by
  cases completion with
  | normal => exact trivial
  | returned value => exact free value List.mem_cons_self

/-- Calls at a depth come to an end if those at the next depth do, as far as there is one. -/
theorem CallsHalt.of_deeper
    (deeper : (∀ limit ∈ rules.limit, (depth : Int) < limit) → CallsHalt rules (depth + 1)) :
    CallsHalt rules depth := by
  intro callee arguments line machine freeCallee freeAll free atDepth
  apply HaltsAt.succ
  cases refused : rules.refusal? callee arguments.length machine.depth with
  | some cause =>
    simp only [call_of_refused refused]
    exact OutcomeIn.Halts.at_once free
  | none =>
    cases callee with
    | literal value => cases refused
    | native function =>
      cases function
      simp only [call, refused]
      exact OutcomeIn.Halts.at_once ⟨trivial, free, atDepth⟩
    | closure function =>
      -- The body runs one call deeper, where calls come to an end by assumption.
      have calls := deeper (atDepth ▸ Rules.depth_lt_of_accepted refused)
      have entered := free.enterCall function freeAll
      have inside : (machine.enterCall function arguments).depth = depth + 1 := by
        rw [machine.depth_enterCall, atDepth]
      have body : HaltsAt (fun fuel =>
          (executeAll rules fuel function.body (machine.enterCall function arguments)).bind
            fun completion after => .done completion.value after) (depth + 1) ValueIn.LoopFree :=
        (Stmt.allHalt calls function.body _ freeCallee entered inside).bind
          fun completion after freeCompletion freeAfter same =>
            OutcomeIn.Halts.at_once ⟨freeCompletion.value, freeAfter, same⟩
      simp only [call_closure rules _ line refused]
      exact atDepth ▸ body.returnTo machine.frame machine.depth

/-- Under a limit every call of a function without loops comes to an end. -/
theorem callsHalt {limit : Int} (isLimit : rules.limit = some limit) (depth : Nat) :
    CallsHalt rules depth := by
  -- By induction on the number of calls that the limit leaves.
  suffices left : ∀ (room depth : Nat), limit ≤ depth + room → CallsHalt rules depth by
    exact left (limit - depth).toNat depth (by omega)
  intro room
  induction room with
  | zero =>
    intro depth none
    refine .of_deeper fun below => ?_
    have := below limit isLimit
    omega
  | succ room ih => exact fun depth enough => .of_deeper fun _ => ih (depth + 1) (by omega)

end

end Lox
