import Lox.Proofs.Cursor.Statements
import Lox.Proofs.Grammar.Program

/-! Whole lists of tokens read with a cursor.

Whatever the tokens are, the cursor stays among them and the reading ends: that of a program
at the closing token, that of a single expression no later. Both give what the parsers give.
-/

set_option autoImplicit false

namespace Lox.Syntax.Cursor

def start : Cursor := ⟨0, [], [], []⟩

variable {front : List Token} {last : Token} {fuel : Nat}

theorem stands_start (front : List Token) : Stands front start front where
  rest := rfl
  orderly := {
    ascends := List.pairwise_singleton _ _
    within := List.forall_mem_singleton.mpr (Nat.zero_le _)
    progresses := fun _ member => absurd member List.not_mem_nil }

theorem program_nil (closes : Closes [] last) (enough : 0 < fuel) :
    Reading.program fuel [last] start = .done [] start := by
  obtain ⟨less, rfl⟩ := Nat.exists_eq_add_one.mpr enough
  have atEnd := Reading.atEnd_eq closes (stands_start [])
  rw [List.nil_append] at atEnd
  simp [Reading.program, Reading.declarations, atEnd]

theorem program_done (closes : Closes front last) (enough : 2 * front.length + 3 ≤ fuel) :
    ∃ final, Reading.program fuel (front ++ [last]) start =
        .done (Program.ofTokens front).statements final ∧
      Stands front final [] ∧ final.errors = located last (Program.ofTokens front).errors := by
  -- Without a token no declaration begins, and recovery would have nothing to turn back to.
  by_cases present : front = []
  · subst present
    exact ⟨start, program_nil closes (by omega), stands_start [], rfl⟩
  have stopping (cursor : Cursor) (rest : List Token) (stands : Stands front cursor rest) :
      Reading.atEnd (front ++ [last]) cursor = .done (rest.head?.all (·.kind ∈ [])) cursor := by
    rw [Reading.atEnd_eq closes stands]
    cases rest <;> simp
  have follows : Follows front last (Reading.program fuel)
      (StmtParser.declarations (StmtParser.declaration fuel) [] fuel) :=
    follows_declarations (follows_statement_declaration closes present fuel).2 stopping fuel
  have answer : StmtParser.declarations (StmtParser.declaration fuel) [] fuel front =
      .ok (Program.ofTokens front).statements [] (Program.ofTokens front).errors := by
    rw [← Program.declarations_ofTokens]
    refine StmtParser.declarations_refined (StmtParser.statement_declaration_refined enough).2
      enough front ?_
    simp [Program.declarations_ofTokens]
  exact (answer ▸ follows start front (stands_start front)).of_ok

theorem phrase_done (closes : Closes front last) (enough : front.length < fuel) :
    ∃ final, Reading.phrase fuel (front ++ [last]) start = .done (Phrase.ofTokens front).expr final ∧
      Stands front final (Phrase.ofTokens front).rest ∧
      final.errors = located last (Phrase.ofTokens front).errors := by
  have agrees := follows_expression closes fuel start front (stands_start front)
  have refined := ExprParser.expression_refined (Nat.succ_le_of_lt enough) front
  have finishes := ExprParser.expression_finishes (front.length + 1) front (Nat.lt_succ_self _)
  rw [Reading.phrase, Reading.attempt, Phrase.ofTokens]
  cases answer : ExprParser.expression (front.length + 1) front with
  | ok value rest errors =>
    rw [refined (by simp [answer]), answer] at agrees
    obtain ⟨after, same, stands, noted⟩ := agrees.of_ok
    rw [same]
    exact ⟨after, rfl, stands, noted⟩
  | stopped rest earlier error =>
    rw [refined (by simp [answer]), answer] at agrees
    obtain ⟨after, same, stands, noted⟩ := agrees.of_stopped
    rw [same]
    exact ⟨after, rfl, stands, noted⟩
  | exhausted =>
    rw [answer] at finishes
    exact finishes.elim

/-- However malformed the tokens are, the readings of a program and of an expression end with
a value, and on the way the cursor never moves back, never passes the closing token and moves
on in every declaration that begins at another one. The program leaves it on the closing
token. -/
theorem parsing_ends (closes : Closes front last) (enough : 2 * front.length + 3 ≤ fuel) :
    (∃ final, Reading.program fuel (front ++ [last]) start =
        .done (Program.ofTokens front).statements final ∧
      final.position = front.length ∧ final.Orderly front.length ∧
      final.errors = located last (Program.ofTokens front).errors) ∧
    ∃ final, Reading.phrase fuel (front ++ [last]) start =
        .done (Phrase.ofTokens front).expr final ∧
      front.drop final.position = (Phrase.ofTokens front).rest ∧ final.Orderly front.length ∧
      final.errors = located last (Phrase.ofTokens front).errors := by
  obtain ⟨final, program, ended, noted⟩ := program_done closes enough
  have room : front.length < fuel := by omega
  obtain ⟨left, phrase, stands, found⟩ := phrase_done closes room
  exact ⟨⟨final, program, ended.length, ended.orderly, noted⟩,
    left, phrase, stands.rest, stands.orderly, found⟩

/-- A block that is never closed, with a `print` that has no value. -/
def openBlock : List Token :=
  [⟨.leftBrace, "\x7b", none, 1⟩, ⟨.printWord, "print", none, 1⟩, ⟨.semicolon, ";", none, 1⟩]

/-- The first error is passed over inside the block, and the second has nothing behind it to
be passed over. -/
theorem parsing_ends_openBlock :
    Closes openBlock (.finish 1) ∧
    ∃ final, Reading.program 9 (openBlock ++ [.finish 1]) start = .done [] final ∧
      final.position = 3 ∧ final.Orderly 3 ∧
      final.errors = [(⟨.semicolon, ";", none, 1⟩, .expression), (.finish 1, .braceAfterBlock)] := by
  have closes : Closes openBlock (.finish 1) := ⟨rfl, by decide⟩
  exact ⟨closes, (parsing_ends closes (Nat.le_refl 9)).1⟩

end Lox.Syntax.Cursor
