import Lox.Proofs.Renaming.Trees

/-! Scopes that are chosen by where they stand.

The address of a statement is its position among the statements around it, then theirs.
A block and a function have the address of the scope of their body as well, so to choose
addresses is to choose scopes.
-/

set_option autoImplicit false

namespace Lox

abbrev Address := List Nat

section
variable (names : Renaming) (chosen : Address → Bool)

mutual

def Stmt.renameIn : List Bool → Address → Stmt → Stmt
  | marks, _, .expression inner => .expression (inner.rename names marks)
  | marks, _, .print inner => .print (inner.rename names marks)
  | marks, _, .varDecl name initializer =>
    .varDecl (name.rename names (markHere marks)) (initializer.map (Expr.rename names marks))
  | marks, address, .block body => .block (renameAllIn (chosen address :: marks) address 0 body)
  | marks, address, .conditional condition yes none =>
    .conditional (condition.rename names marks) (yes.renameIn marks (0 :: address)) none
  | marks, address, .conditional condition yes (some no) =>
    .conditional (condition.rename names marks) (yes.renameIn marks (0 :: address))
      (some (no.renameIn marks (1 :: address)))
  | marks, address, .loop condition body =>
    .loop (condition.rename names marks) (body.renameIn marks (0 :: address))
  | marks, address, .funDecl name params body =>
    .funDecl name (params.map (Token.rename names (chosen address)))
      (renameAllIn (chosen address :: marks) address 0 body)
  | marks, _, .ret keyword value => .ret keyword (value.map (Expr.rename names marks))
  | _, _, .misplaced node => .misplaced node

/-- Change the names in statements that stand one after the other. -/
def Stmt.renameAllIn : List Bool → Address → Nat → List Stmt → List Stmt
  | _, _, _, [] => []
  | marks, address, position, first :: others =>
    first.renameIn marks (position :: address) :: renameAllIn marks address (position + 1) others

end

mutual

def Stmt.KeepsIn : Bool → Address → Stmt → Prop
  | _, address, .block body => AllKeepIn (chosen address) address 0 body
  | mark, address, .conditional _ yes none => yes.KeepsIn mark (0 :: address)
  | mark, address, .conditional _ yes (some no) =>
    yes.KeepsIn mark (0 :: address) ∧ no.KeepsIn mark (1 :: address)
  | mark, address, .loop _ body => body.KeepsIn mark (0 :: address)
  | mark, address, .funDecl name _ body =>
    names.under mark name.lexeme = name.lexeme ∧ AllKeepIn (chosen address) address 0 body
  | _, _, .expression _ | _, _, .print _ | _, _, .varDecl .. | _, _, .ret .. | _, _, .misplaced _ => True

def Stmt.AllKeepIn : Bool → Address → Nat → List Stmt → Prop
  | _, _, _, [] => True
  | mark, address, position, first :: others =>
    first.KeepsIn mark (position :: address) ∧ AllKeepIn mark address (position + 1) others

end

mutual

def Stmt.decideKeepsIn : ∀ (mark : Bool) (address : Address) (stmt : Stmt),
    Decidable (stmt.KeepsIn names chosen mark address)
  | _, address, .block body => decideAllKeepIn (chosen address) address 0 body
  | mark, address, .conditional _ yes none => yes.decideKeepsIn mark (0 :: address)
  | mark, address, .conditional _ yes (some no) =>
    @instDecidableAnd _ _ (yes.decideKeepsIn mark (0 :: address))
      (no.decideKeepsIn mark (1 :: address))
  | mark, address, .loop _ body => body.decideKeepsIn mark (0 :: address)
  | mark, address, .funDecl name _ body =>
    @instDecidableAnd _ _ (inferInstanceAs (Decidable (names.under mark name.lexeme = name.lexeme)))
      (decideAllKeepIn (chosen address) address 0 body)
  | _, _, .expression _ | _, _, .print _ | _, _, .varDecl .. | _, _, .ret .. | _, _, .misplaced _ =>
    isTrue trivial

def Stmt.decideAllKeepIn : ∀ (mark : Bool) (address : Address) (position : Nat) (stmts : List Stmt),
    Decidable (AllKeepIn names chosen mark address position stmts)
  | _, _, _, [] => isTrue trivial
  | mark, address, position, first :: others =>
    @instDecidableAnd _ _ (first.decideKeepsIn mark (position :: address))
      (decideAllKeepIn mark address (position + 1) others)

end

instance (mark : Bool) (address : Address) (position : Nat) (stmts : List Stmt) :
    Decidable (Stmt.AllKeepIn names chosen mark address position stmts) :=
  Stmt.decideAllKeepIn names chosen mark address position stmts

end

variable {names : Renaming} {chosen : Address → Bool}

mutual

theorem Stmt.renamed_renameIn : ∀ (stmt : Stmt) {marks : List Bool} {address : Address},
    stmt.KeepsIn names chosen (markHere marks) address →
    Renamed names marks stmt (stmt.renameIn names chosen marks address)
  | .expression _, _, _, _ => .expression
  | .print _, _, _, _ => .print
  | .varDecl _ _, _, _, _ => .varDecl
  | .block body, _, _, kept => .block _ (allRenamed_renameAllIn body kept)
  | .conditional _ yes none, _, _, kept => .conditional (yes.renamed_renameIn kept)
  | .conditional _ yes (some no), _, _, kept =>
    .alternative (yes.renamed_renameIn kept.1) (no.renamed_renameIn kept.2)
  | .loop _ body, _, _, kept => .loop (body.renamed_renameIn kept)
  | .funDecl _ _ body, _, _, kept => .funDecl _ kept.1 (allRenamed_renameAllIn body kept.2)
  | .ret _ _, _, _, _ => .ret
  | .misplaced _, _, _, _ => .misplaced

theorem Stmt.allRenamed_renameAllIn : ∀ (stmts : List Stmt) {marks : List Bool} {address : Address}
    {position : Nat}, AllKeepIn names chosen (markHere marks) address position stmts →
    AllRenamed names marks stmts (renameAllIn names chosen marks address position stmts)
  | [], _, _, _, _ => .nil
  | first :: others, _, _, _, kept =>
    .cons (first.renamed_renameIn kept.1) (allRenamed_renameAllIn others kept.2)

end

end Lox
