import Lox.Proofs.Session.Accounts

/-! Trees without loops.

A text in which neither `while` nor `for` is a token gives a tree without a loop, and
resolving its names adds none.
-/

set_option autoImplicit false

namespace Lox

mutual

/-- No loop stands in the statement, nor in the body of a function inside it. -/
def Stmt.LoopFree : Stmt → Prop
  | .expression _ | .print _ | .varDecl .. | .ret .. | .misplaced _ => True
  | .block body | .funDecl _ _ body => AllLoopFree body
  | .conditional _ yes none => yes.LoopFree
  | .conditional _ yes (some no) => yes.LoopFree ∧ no.LoopFree
  | .loop .. => False

def Stmt.AllLoopFree : List Stmt → Prop
  | [] => True
  | first :: others => first.LoopFree ∧ AllLoopFree others

end

mutual

@[simp] theorem Stmt.loopFree_erase : ∀ stmt : Stmt, stmt.erase.LoopFree ↔ stmt.LoopFree
  | .expression _ | .print _ | .varDecl .. | .ret .. | .misplaced _ | .loop .. => Iff.rfl
  | .block body | .funDecl _ _ body => allLoopFree_eraseAll body
  | .conditional _ yes none => yes.loopFree_erase
  | .conditional _ yes (some no) => and_congr yes.loopFree_erase no.loopFree_erase

@[simp] theorem Stmt.allLoopFree_eraseAll :
    ∀ stmts : List Stmt, AllLoopFree (eraseAll stmts) ↔ AllLoopFree stmts
  | [] => Iff.rfl
  | first :: others => and_congr first.loopFree_erase (allLoopFree_eraseAll others)

end

def Token.LoopFree (tokens : List Token) : Prop :=
  ∀ token ∈ tokens, token.kind ≠ .whileWord ∧ token.kind ≠ .forWord

instance (tokens : List Token) : Decidable (Token.LoopFree tokens) :=
  inferInstanceAs (Decidable (∀ token ∈ tokens, token.kind ≠ .whileWord ∧ token.kind ≠ .forWord))

namespace Grammar

open Token (LoopFree)

theorem Variable.loopFree {tokens : List Token} {stmt : Stmt} (derived : Variable tokens stmt) :
    stmt.LoopFree := by
  cases derived <;> trivial

mutual

theorem Statement.loopFree : ∀ {dangling : Bool} {tokens : List Token} {stmt : Stmt},
    Statement dangling tokens stmt → LoopFree tokens → stmt.LoopFree
  | _, _, _, .expression _, _ | _, _, _, .print _ _, _ | _, _, _, .ret _ _ _, _ => trivial
  | _, _, _, .block _ body _, free =>
    body.loopFree fun token member => free token (by simp [member])
  | _, _, _, .loop word _ _ _ _, free => absurd word (free _ List.mem_cons_self).1
  | _, _, _, .forLoop word _ _ _ _ _ _ _, free => absurd word (free _ (by simp)).2
  | _, _, _, .ifOnly _ _ _ _ yes, free =>
    yes.loopFree fun token member => free token (by simp [member])
  | _, _, _, .ifElse _ _ _ _ yes _ no, free =>
    ⟨yes.loopFree fun token member => free token (by simp [member]),
      no.loopFree fun token member => free token (by simp [member])⟩

theorem Declaration.loopFree : ∀ {tokens : List Token} {stmt : Stmt},
    Declaration tokens stmt → LoopFree tokens → stmt.LoopFree
  | _, _, .function _ _ _ _ _ _ body _, free =>
    body.loopFree fun token member => free token (by simp [member])
  | _, _, .variable derived, _ => derived.loopFree
  | _, _, .statement derived, free => derived.loopFree free

theorem Declarations.loopFree : ∀ {tokens : List Token} {stmts : List Stmt},
    Declarations tokens stmts → LoopFree tokens → Stmt.AllLoopFree stmts
  | _, _, .none, _ => trivial
  | _, _, .more first others, free =>
    ⟨first.loopFree fun token member => free token (by simp [member]),
      others.loopFree fun token member => free token (by simp [member])⟩

end

end Grammar

namespace Source

variable {text : List Char} {resolve : Bool} {statements : List Stmt}

/-- The text has no `while` and no `for`. -/
def LoopFree (text : List Char) : Prop := Token.LoopFree (ofText text).scan.tokens

instance (text : List Char) : Decidable (LoopFree text) :=
  inferInstanceAs (Decidable (Token.LoopFree _))

theorem loopFree_of_parsed? (free : LoopFree text) (parsed : parsed? text = some statements) :
    Stmt.AllLoopFree statements := by
  unfold parsed? at parsed
  split at parsed
  next clean =>
    cases parsed
    have noErrors : (ofText text).program.errors = [] :=
      List.map_eq_nil_iff.mp (List.append_eq_nil_iff.mp clean).2
    have same : Program.ofTokens (ofText text).scan.tokens = ⟨(ofText text).program.statements, []⟩ := by
      rw [← noErrors]
      rfl
    exact (Program.derives_of_ofTokens_eq same).loopFree free
  next => cases parsed

/-- The statements that a text without loops has executed are without loops. -/
theorem loopFree_of_code (free : LoopFree text) (coded : code resolve text = .ok statements) :
    Stmt.AllLoopFree statements := by
  cases resolve with
  | true =>
    have resolved := code_true_eq_ok_iff.mp coded
    obtain ⟨parsed, same, -⟩ := locates_of_resolved? resolved
    rw [← Stmt.allLoopFree_eraseAll, eraseAll_of_resolved? resolved, parsed?_eq same]
    exact loopFree_of_parsed? free same
  | false =>
    apply loopFree_of_parsed? free
    unfold code at coded
    unfold parsed?
    split at coded
    next clean =>
      rw [if_neg Bool.false_ne_true, Except.ok.injEq] at coded
      rw [if_pos clean, coded]
    next => cases coded

end Source

end Lox
