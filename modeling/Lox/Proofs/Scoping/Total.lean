import Lox.Proofs.Scoping.Shape
import Lox.Scope

/-! Resolving a tree of proper shape always gives a tree. -/

set_option autoImplicit false

namespace Lox

namespace Resolution

variable {α β : Type}

def Total (resolution : Resolution α) : Prop :=
  ∃ value uses errors, resolution = .ok value uses errors

theorem total_pure {value : α} : (Pure.pure value : Resolution α).Total :=
  ⟨value, [], [], rfl⟩

theorem Total.bind {resolution : Resolution α} {next : α → Resolution β}
    (total : resolution.Total) (goesOn : ∀ value, (next value).Total) :
    Total (resolution >>= next) := by
  obtain ⟨value, uses, errors, rfl⟩ := total
  obtain ⟨result, moreUses, moreErrors, same⟩ := goesOn value
  refine ⟨result, uses ++ moreUses, errors ++ moreErrors, ?_⟩
  change Resolution.bind _ _ = _
  simp only [Resolution.bind, same]

theorem total_noteIf {condition : Bool} {error : ScopeError} : (noteIf condition error).Total :=
  ⟨(), [], _, rfl⟩

theorem total_useOf {scopes : List Scope} {assigned : Bool} {name : Token} :
    (useOf scopes assigned name).Total := by
  unfold useOf
  split <;> exact ⟨_, _, _, rfl⟩

end Resolution

section
variable {scopes : List Scope}

mutual

theorem Expr.resolve_total : ∀ expr : Expr, expr.Proper → (expr.resolve scopes).Total
  | .literal _, _ => Resolution.total_pure
  | .grouping inner, proper => (inner.resolve_total proper).bind fun _ => Resolution.total_pure
  | .unary _ operand, proper =>
    (operand.resolve_total proper.2).bind fun _ => Resolution.total_pure
  | .binary left _ right, proper =>
    (left.resolve_total proper.1).bind fun _ =>
      (right.resolve_total proper.2.2).bind fun _ => Resolution.total_pure
  | .logical left _ right, proper =>
    (left.resolve_total proper.1).bind fun _ =>
      (right.resolve_total proper.2).bind fun _ => Resolution.total_pure
  | .reference .., _ =>
    Resolution.total_noteIf.bind fun _ => Resolution.total_useOf.bind fun _ =>
      Resolution.total_pure
  | .assign _ value _, proper =>
    (value.resolve_total proper).bind fun _ => Resolution.total_useOf.bind fun _ =>
      Resolution.total_pure
  | .call callee _ arguments, proper =>
    (callee.resolve_total proper.1).bind fun _ =>
      (resolveAll_total arguments proper.2).bind fun _ => Resolution.total_pure
  | .misplaced _, proper => proper.elim

theorem Expr.resolveAll_total :
    ∀ exprs : List Expr, AllProper exprs → (resolveAll scopes exprs).Total
  | [], _ => Resolution.total_pure
  | first :: others, proper =>
    (first.resolve_total proper.1).bind fun _ =>
      (resolveAll_total others proper.2).bind fun _ => Resolution.total_pure

end

theorem Expr.resolveOption_total {expr : Option Expr} (proper : ∀ inner ∈ expr, inner.Proper) :
    (resolveOption scopes expr).Total := by
  cases expr with
  | none => exact Resolution.total_pure
  | some expr => exact (expr.resolve_total (proper expr rfl)).bind fun _ => Resolution.total_pure

end

namespace Stmt

theorem resolve_total_varDecl {name : Token} {initializer : Option Expr} {scopes : List Scope}
    {inFunction : Bool} (proper : ∀ inner ∈ initializer, inner.Proper) :
    ((Stmt.varDecl name initializer).resolve scopes inFunction).Total :=
  (Expr.resolveOption_total proper).bind fun _ => Resolution.total_pure

theorem resolve_total_ret {keyword : Token} {value : Option Expr} {scopes : List Scope}
    {inFunction : Bool} (proper : ∀ inner ∈ value, inner.Proper) :
    ((Stmt.ret keyword value).resolve scopes inFunction).Total :=
  Resolution.total_noteIf.bind fun _ => (Expr.resolveOption_total proper).bind fun _ =>
    Resolution.total_pure

mutual

theorem resolve_total : ∀ (stmt : Stmt) {scopes : List Scope} {inFunction : Bool},
    stmt.Proper → (stmt.resolve scopes inFunction).Total
  | .expression inner, _, _, proper | .print inner, _, _, proper =>
    (inner.resolve_total proper).bind fun _ => Resolution.total_pure
  | .varDecl _ none, _, _, _ => resolve_total_varDecl (by simp)
  | .varDecl _ (some _), _, _, proper => resolve_total_varDecl (by simpa [Proper] using proper)
  | .block body, _, _, proper =>
    (resolveAll_total body proper).bind fun _ => Resolution.total_pure
  | .conditional condition yes none, _, _, proper =>
    (condition.resolve_total proper.1).bind fun _ =>
      (yes.resolve_total proper.2.1).bind fun _ => Resolution.total_pure
  | .conditional condition yes (some no), _, _, proper =>
    (condition.resolve_total proper.1).bind fun _ =>
      (yes.resolve_total proper.2.1.1).bind fun _ =>
        (no.resolve_total proper.2.2.1).bind fun _ => Resolution.total_pure
  | .loop condition body, _, _, proper =>
    (condition.resolve_total proper.1).bind fun _ =>
      (body.resolve_total proper.2.1).bind fun _ => Resolution.total_pure
  | .funDecl _ _ body, _, _, proper =>
    (resolveAll_total body proper).bind fun _ => Resolution.total_pure
  | .ret _ none, _, _, _ => resolve_total_ret (by simp)
  | .ret _ (some _), _, _, proper => resolve_total_ret (by simpa [Proper] using proper)
  | .misplaced _, _, _, proper => proper.elim

theorem resolveAll_total : ∀ (stmts : List Stmt) {scopes : List Scope} {inFunction : Bool},
    AllProper stmts → (resolveAll scopes inFunction stmts).Total
  | [], _, _, _ => Resolution.total_pure
  | first :: others, _, _, proper =>
    (first.resolve_total proper.1).bind fun _ =>
      (resolveAll_total others proper.2).bind fun _ => Resolution.total_pure

end

end Stmt

theorem resolveProgram_total {statements : List Stmt} (proper : Stmt.AllProper statements) :
    (resolveProgram statements).Total :=
  (Stmt.resolveAll_total statements proper).bind fun _ => Resolution.total_pure

end Lox
