import Mathlib.Logic.Basic
import Lox.Proofs.Scoping.Site

/-! The shape of program trees and the trees without their distances.

Programs have no raw nodes, operators where operators belong, and declarations
only among statements that follow one another. None of this depends on distances.
-/

set_option autoImplicit false

namespace Lox

open Token (Kind)

namespace Operator

/-- The kinds of operators between two operands that are always evaluated. -/
def binaryKinds : List Kind :=
  [.bangEqual, .equalEqual, .greater, .greaterEqual, .less, .lessEqual, .minus, .plus, .slash,
    .star]

def unaryKinds : List Kind := [.bang, .minus]

end Operator

mutual

def Expr.Proper : Expr → Prop
  | .literal _ | .reference .. => True
  | .grouping inner => inner.Proper
  | .unary operator operand => operator.kind ∈ Operator.unaryKinds ∧ operand.Proper
  | .binary left operator right =>
    left.Proper ∧ operator.kind ∈ Operator.binaryKinds ∧ right.Proper
  | .logical left _ right => left.Proper ∧ right.Proper
  | .assign _ value _ => value.Proper
  | .call callee _ arguments => callee.Proper ∧ AllProper arguments
  | .misplaced _ => False

def Expr.AllProper : List Expr → Prop
  | [] => True
  | first :: others => first.Proper ∧ AllProper others

end

mutual

def Stmt.Proper : Stmt → Prop
  | .expression inner | .print inner => inner.Proper
  | .varDecl _ none | .ret _ none => True
  | .varDecl _ (some initializer) => initializer.Proper
  | .block body => AllProper body
  | .conditional condition yes none => condition.Proper ∧ yes.Proper ∧ yes.declared = []
  | .conditional condition yes (some no) =>
    condition.Proper ∧ (yes.Proper ∧ yes.declared = []) ∧ no.Proper ∧ no.declared = []
  | .loop condition body => condition.Proper ∧ body.Proper ∧ body.declared = []
  | .funDecl _ _ body => AllProper body
  | .ret _ (some value) => value.Proper
  | .misplaced _ => False

def Stmt.AllProper : List Stmt → Prop
  | [] => True
  | first :: others => first.Proper ∧ AllProper others

end

mutual

def Expr.erase : Expr → Expr
  | .literal value => .literal value
  | .grouping inner => .grouping inner.erase
  | .unary operator operand => .unary operator operand.erase
  | .binary left operator right => .binary left.erase operator right.erase
  | .logical left operator right => .logical left.erase operator right.erase
  | .reference name _ => .reference name none
  | .assign name value _ => .assign name value.erase none
  | .call callee paren arguments => .call callee.erase paren (eraseAll arguments)
  | .misplaced node => .misplaced node

def Expr.eraseAll : List Expr → List Expr
  | [] => []
  | first :: others => first.erase :: eraseAll others

end

mutual

def Stmt.erase : Stmt → Stmt
  | .expression inner => .expression inner.erase
  | .print inner => .print inner.erase
  | .varDecl name initializer => .varDecl name (initializer.map Expr.erase)
  | .block body => .block (eraseAll body)
  | .conditional condition yes none => .conditional condition.erase yes.erase none
  | .conditional condition yes (some no) =>
    .conditional condition.erase yes.erase (some no.erase)
  | .loop condition body => .loop condition.erase body.erase
  | .funDecl name params body => .funDecl name params (eraseAll body)
  | .ret keyword value => .ret keyword (value.map Expr.erase)
  | .misplaced node => .misplaced node

def Stmt.eraseAll : List Stmt → List Stmt
  | [] => []
  | first :: others => first.erase :: eraseAll others

end

theorem Stmt.erase_conditional (condition : Expr) (yes : Stmt) (no : Option Stmt) :
    (conditional condition yes no).erase =
      .conditional condition.erase yes.erase (no.map erase) := by
  cases no <;> rfl

/-- Both branches of a conditional are in order, and neither declares anything. -/
theorem Stmt.parts_of_conditional {allowed : Site → Prop} {regions : List Region} {condition : Expr}
    {yes : Stmt} {no : Option Stmt} (proper : (conditional condition yes no).Proper)
    (uses : (conditional condition yes no).EveryUse allowed regions) :
    (condition.Proper ∧ condition.EveryUse allowed regions none) ∧
      ∀ branch ∈ yes :: no.toList,
        branch.Proper ∧ branch.declared = [] ∧ branch.EveryUse allowed regions := by
  cases no with
  | none =>
    refine ⟨⟨proper.1, uses.1⟩, ?_⟩
    simpa using ⟨proper.2.1, proper.2.2, uses.2⟩
  | some no =>
    refine ⟨⟨proper.1, uses.1⟩, ?_⟩
    simpa using ⟨⟨proper.2.1.1, proper.2.1.2, uses.2.1⟩, proper.2.2.1, proper.2.2.2, uses.2.2⟩

@[simp] theorem Stmt.declared_erase (stmt : Stmt) : stmt.erase.declared = stmt.declared := by
  cases stmt with
  | conditional condition yes no => cases no <;> rfl
  | _ => rfl

theorem Stmt.declared_erase_eq_nil (stmt : Stmt) :
    stmt.erase.declared = [] ↔ stmt.declared = [] := by
  rw [stmt.declared_erase]

@[simp] theorem Stmt.declaredIn_eraseAll (stmts : List Stmt) :
    Stmt.declaredIn (Stmt.eraseAll stmts) = Stmt.declaredIn stmts := by
  induction stmts with
  | nil => rfl
  | cons first others ih =>
    simp only [Stmt.declaredIn, Stmt.eraseAll, List.flatMap_cons, Stmt.declared_erase] at ih ⊢
    rw [ih]

mutual

@[simp] theorem Expr.proper_erase : ∀ expr : Expr, expr.erase.Proper ↔ expr.Proper
  | .literal _ | .reference .. | .misplaced _ => Iff.rfl
  | .grouping inner => inner.proper_erase
  | .unary _ operand => and_congr_right' operand.proper_erase
  | .binary left _ right => and_congr left.proper_erase (and_congr_right' right.proper_erase)
  | .logical left _ right => and_congr left.proper_erase right.proper_erase
  | .assign _ value _ => value.proper_erase
  | .call callee _ arguments => and_congr callee.proper_erase (allProper_eraseAll arguments)

@[simp] theorem Expr.allProper_eraseAll :
    ∀ exprs : List Expr, AllProper (eraseAll exprs) ↔ AllProper exprs
  | [] => Iff.rfl
  | first :: others => and_congr first.proper_erase (allProper_eraseAll others)

end

mutual

@[simp] theorem Stmt.proper_erase : ∀ stmt : Stmt, stmt.erase.Proper ↔ stmt.Proper
  | .expression inner | .print inner => inner.proper_erase
  | .varDecl _ none | .ret _ none | .misplaced _ => Iff.rfl
  | .varDecl _ (some initializer) => initializer.proper_erase
  | .block body => allProper_eraseAll body
  | .conditional condition yes none =>
    and_congr condition.proper_erase (and_congr yes.proper_erase yes.declared_erase_eq_nil)
  | .conditional condition yes (some no) =>
    and_congr condition.proper_erase
      (and_congr (and_congr yes.proper_erase yes.declared_erase_eq_nil)
        (and_congr no.proper_erase no.declared_erase_eq_nil))
  | .loop condition body =>
    and_congr condition.proper_erase (and_congr body.proper_erase body.declared_erase_eq_nil)
  | .funDecl _ _ body => allProper_eraseAll body
  | .ret _ (some value) => value.proper_erase

@[simp] theorem Stmt.allProper_eraseAll :
    ∀ stmts : List Stmt, AllProper (eraseAll stmts) ↔ AllProper stmts
  | [] => Iff.rfl
  | first :: others => and_congr first.proper_erase (allProper_eraseAll others)

end

mutual

@[simp] theorem Expr.erase_erase : ∀ expr : Expr, expr.erase.erase = expr.erase
  | .literal _ | .reference .. | .misplaced _ => rfl
  | .grouping inner => congrArg Expr.grouping inner.erase_erase
  | .unary operator operand => congrArg (Expr.unary operator) operand.erase_erase
  | .binary left operator right =>
    congrArg₂ (Expr.binary · operator ·) left.erase_erase right.erase_erase
  | .logical left operator right =>
    congrArg₂ (Expr.logical · operator ·) left.erase_erase right.erase_erase
  | .assign name value _ => congrArg (Expr.assign name · none) value.erase_erase
  | .call callee paren arguments =>
    congrArg₂ (Expr.call · paren ·) callee.erase_erase (eraseAll_eraseAll arguments)

@[simp] theorem Expr.eraseAll_eraseAll :
    ∀ exprs : List Expr, eraseAll (eraseAll exprs) = eraseAll exprs
  | [] => rfl
  | first :: others => congrArg₂ List.cons first.erase_erase (eraseAll_eraseAll others)

end

mutual

@[simp] theorem Stmt.erase_erase : ∀ stmt : Stmt, stmt.erase.erase = stmt.erase
  | .expression inner => congrArg Stmt.expression inner.erase_erase
  | .print inner => congrArg Stmt.print inner.erase_erase
  | .varDecl _ none | .ret _ none | .misplaced _ => rfl
  | .varDecl name (some initializer) =>
    congrArg (fun inner => Stmt.varDecl name (some inner)) initializer.erase_erase
  | .block body => congrArg Stmt.block (eraseAll_eraseAll body)
  | .conditional condition yes none =>
    congrArg₂ (Stmt.conditional · · none) condition.erase_erase yes.erase_erase
  | .conditional condition yes (some no) => by
    simp only [erase, condition.erase_erase, yes.erase_erase, no.erase_erase]
  | .loop condition body => congrArg₂ Stmt.loop condition.erase_erase body.erase_erase
  | .funDecl name params body => congrArg (Stmt.funDecl name params) (eraseAll_eraseAll body)
  | .ret keyword (some value) =>
    congrArg (fun inner => Stmt.ret keyword (some inner)) value.erase_erase

@[simp] theorem Stmt.eraseAll_eraseAll :
    ∀ stmts : List Stmt, eraseAll (eraseAll stmts) = eraseAll stmts
  | [] => rfl
  | first :: others => congrArg₂ List.cons first.erase_erase (eraseAll_eraseAll others)

end

end Lox
