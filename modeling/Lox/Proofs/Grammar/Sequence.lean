import Lox.Proofs.Grammar.Fuel
import Lox.Proofs.Grammar.Program

/-! Programs one behind the other.

Declarations without errors are read in the same way whatever stands behind them, but
for an `else` behind an `if` that lacks it. What stands behind them is read as it is
alone, so the errors of a program never reach backwards.
-/

set_option autoImplicit false

namespace Lox.Program

open Syntax

variable {tokens others : List Token} {statements : List Stmt}

theorem declarations_of_le (others : List Token) {fuel steps : Nat} (enough : 2 * others.length + 3 ≤ fuel)
    (more : 2 * others.length + 3 ≤ steps) :
    StmtParser.declarations (StmtParser.declaration fuel) [] steps others =
      .ok (ofTokens others).statements [] (ofTokens others).errors := by
  have refined := @StmtParser.declarations_refined _ _
    (StmtParser.statement_declaration_refined enough).2 [] _ _ more others
  rw [declarations_ofTokens] at refined
  exact refined nofun

/-- Behind a program without errors, any tokens give the statements and the errors that
they give alone, unless an `else` comes first. -/
theorem ofTokens_behind (clean : ofTokens tokens = ⟨statements, []⟩)
    (apart : ∀ next ∈ others.head?, next.kind ≠ .elseWord) :
    ofTokens (tokens ++ others) =
      ⟨statements ++ (ofTokens others).statements, (ofTokens others).errors⟩ := by
  have derived := derives_of_ofTokens_eq clean
  have few := derived.length_le
  have stops : Stops [.elseWord] others := fun next member isElse =>
    apart next member (List.mem_singleton.mp isElse)
  have whole := declarations_ofTokens (tokens ++ others)
  generalize same : 2 * (tokens ++ others).length + 3 = fuel at whole
  rw [List.length_append] at same
  -- What the declarations leave of the steps is still enough for the rest.
  obtain ⟨steps, rfl⟩ : ∃ steps, fuel = statements.length + steps :=
    ⟨fuel - statements.length, by omega⟩
  rw [StmtParser.declarations_append (StmtParser.declaration_complete _) (by simp) stops derived
    (by omega), declarations_of_le others (by omega) (by omega)] at whole
  simp only [Parsed.bind, Parsed.after, List.append_nil, Parsed.ok.injEq, true_and] at whole
  exact (congr (congrArg mk whole.1) whole.2).symm

/-- An `if` that could still get its `else`. -/
def openIf : List Token := [⟨.ifWord, "if", none, 1⟩, ⟨.leftParen, "(", none, 1⟩,
  ⟨.nilWord, "nil", none, 1⟩, ⟨.rightParen, ")", none, 1⟩, ⟨.nilWord, "nil", none, 1⟩,
  ⟨.semicolon, ";", none, 1⟩]

/-- A parenthesis that opens nothing, before a statement. -/
def strayParen : List Token := [⟨.rightParen, ")", none, 2⟩, ⟨.printWord, "print", none, 2⟩,
  ⟨.nilWord, "nil", none, 2⟩, ⟨.semicolon, ";", none, 2⟩]

theorem ofTokens_behind_openIf :
    ofTokens openIf =
        ⟨[.conditional (.literal .nil) (.expression (.literal .nil)) none], []⟩ ∧
      (∀ next ∈ strayParen.head?, next.kind ≠ .elseWord) ∧
      ofTokens (openIf ++ strayParen) =
        ⟨[.conditional (.literal .nil) (.expression (.literal .nil)) none, .print (.literal .nil)],
          [⟨some ⟨.rightParen, ")", none, 2⟩, .expression⟩]⟩ := by
  have clean : ofTokens openIf =
      ⟨[.conditional (.literal .nil) (.expression (.literal .nil)) none], []⟩ := rfl
  have apart : ∀ next ∈ strayParen.head?, next.kind ≠ .elseWord := by decide
  exact ⟨clean, apart, ofTokens_behind clean apart⟩

end Lox.Program
