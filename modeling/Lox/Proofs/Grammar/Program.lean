import Lox.Syntax.Program
import Lox.Proofs.Grammar.Progress
import Lox.Proofs.Grammar.StmtCompleteness

/-! The programs that are read without errors are those of the grammar.

Reading always ends at the last token, so what was read without an error was
derived from all tokens; and what is derived from them is what is read, which
leaves no second derivation a different tree.
-/

set_option autoImplicit false

namespace Lox.Program

open Syntax

variable {tokens : List Token} {statements : List Stmt}

/-- A program is read to its end, whatever its errors. -/
theorem declarations_ofTokens (tokens : List Token) :
    StmtParser.declarations (StmtParser.declaration (2 * tokens.length + 3)) []
        (2 * tokens.length + 3) tokens =
      .ok (ofTokens tokens).statements [] (ofTokens tokens).errors := by
  have advances : (StmtParser.declaration (2 * tokens.length + 3)).Advances (tokens.length + 1) :=
    StmtParser.declaration_advances (by omega)
  obtain ⟨found, rest, errors, answer, _, closed⟩ :
      ∃ stmts rest errors, StmtParser.declarations (StmtParser.declaration (2 * tokens.length + 3))
        [] (2 * tokens.length + 3) tokens = .ok stmts rest errors ∧
          rest.length ≤ tokens.length ∧ ∀ token ∈ rest.head?, token.kind ∈ [] :=
    StmtParser.declarations_advance advances tokens (by omega) (by omega)
  have atEnd : rest = [] := by
    cases rest with
    | nil => rfl
    | cons token rest => exact absurd (closed token rfl) List.not_mem_nil
  subst atEnd
  simp only [ofTokens, answer]

theorem derives_of_ofTokens_eq (same : ofTokens tokens = ⟨statements, []⟩) :
    Grammar.Declarations tokens statements := by
  have answer := declarations_ofTokens tokens
  rw [same] at answer
  obtain ⟨used, split, derived⟩ :=
    StmtParser.declarations_sound (StmtParser.declaration_sound _) _ _ _ _ answer
  rw [List.append_nil] at split
  exact split ▸ derived

theorem ofTokens_eq_of_derives (derived : Grammar.Declarations tokens statements) :
    ofTokens tokens = ⟨statements, []⟩ := by
  have reads : (StmtParser.declarations (StmtParser.declaration (2 * tokens.length + 3)) []
      (2 * tokens.length + 3)).Reads (tokens ++ []) statements [] :=
    StmtParser.declarations_complete (StmtParser.declaration_complete _) (by simp) (by simp)
      stops_nil derived (by omega) (by omega)
  rw [List.append_nil, Parser.Reads, declarations_ofTokens, Parsed.ok.injEq] at reads
  obtain ⟨sameStatements, _, sameErrors⟩ := reads
  exact congr (congrArg mk sameStatements) sameErrors

/-- Exactly what the grammar derives is read without errors, as the one list of
statements that it derives. -/
theorem ofTokens_eq_iff_derives (tokens : List Token) (statements : List Stmt) :
    (ofTokens tokens = ⟨statements, []⟩ ↔ Grammar.Declarations tokens statements) ∧
      ∀ others, Grammar.Declarations tokens statements → Grammar.Declarations tokens others →
        others = statements := by
  refine ⟨⟨derives_of_ofTokens_eq, ofTokens_eq_of_derives⟩, ?_⟩
  intro others derived derivedOthers
  have same := (ofTokens_eq_of_derives derivedOthers).symm.trans (ofTokens_eq_of_derives derived)
  exact congrArg Program.statements same

end Lox.Program
