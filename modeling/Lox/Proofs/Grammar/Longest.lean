import Lox.Proofs.Grammar.Program

/-! An expression on its own, and as a statement.

What is read without errors ends where no token could go on with it, so it is the longest
expression at the front of the tokens. The same tokens are an expression statement as soon as a
semicolon stands behind them, with the same tree; and what is such a statement is read alone
in front of any tokens that do not go on with it.
-/

set_option autoImplicit false

namespace Lox

open Syntax Grammar
open Token (Kind)

namespace Grammar.Level

/-- What goes on with a phrase goes on with its last operand or is an operator behind it. -/
theorem extending_subset_append {level inner : Level} (tighter : level.inner? = some inner)
    (binary : level.operators ≠ []) : level.extending ⊆ level.operators ++ inner.extending := by
  cases level <;> cases tighter <;> simp_all [extending, operators]

end Grammar.Level

namespace Syntax

def Parser.Greedy (parser : Parser Expr) (level : Level) : Prop :=
  ∀ tokens value rest, parser.Reads tokens value rest → Stops level.extending rest

namespace ExprParser

variable {expression : Parser Expr}

theorem extendCall_greedy : ∀ {fuel : Nat} {callee : Expr},
    (extendCall expression fuel callee).Greedy .call
  | 0, _ => fun _ _ _ reads => absurd reads Parser.not_reads_exhausted
  | fuel + 1, callee => by
    intro tokens value rest reads
    rw [extendCall, Parser.reads_accept?_bind] at reads
    rcases reads with ⟨stops, reads⟩ | ⟨opening, middle, rfl, _, reads⟩
    · obtain ⟨rfl, rfl⟩ := Parser.reads_pure.mp reads
      exact stops
    · obtain ⟨arguments, inside, _, reads⟩ := Parser.reads_bind.mp reads
      obtain ⟨closing, behind, _, reads⟩ := Parser.reads_bind.mp reads
      exact extendCall_greedy _ _ _ reads

theorem call_greedy {fuel : Nat} : (call fuel expression).Greedy .call := by
  intro tokens value rest reads
  rw [call, Parser.reads_bind] at reads
  obtain ⟨callee, middle, _, reads⟩ := reads
  exact extendCall_greedy _ _ _ reads

theorem unary_greedy {operand : Parser Expr} (greedy : operand.Greedy .call) :
    (unary operand).Greedy .unary := by
  intro tokens
  induction tokens with
  | nil => exact fun value rest reads => greedy _ _ _ reads
  | cons token tail ih =>
    intro value rest reads
    rw [Parser.Reads, unary] at reads
    split at reads
    · obtain ⟨inner, middle, readInner, same⟩ := Parsed.bind_eq_ok_nil.mp reads
      simp only [Parsed.ok.injEq] at same
      obtain ⟨_, rfl, _⟩ := same
      exact ih _ _ readInner
    · exact greedy _ _ _ reads

end ExprParser

namespace Tier.Implements

variable {tier : Tier} {level inner : Level} {operand : Parser Expr}

/-- Behind the last operand stands neither an operator of the tier nor what extends the operand. -/
theorem extend_stops (same : tier.Implements level inner) (greedy : operand.Greedy inner) :
    ∀ {fuel : Nat} {left value : Expr} {tokens rest : List Token}, Stops inner.extending tokens →
      (tier.extend operand fuel left).Reads tokens value rest →
      Stops (level.operators ++ inner.extending) rest
  | 0, _, _, _, _, _, reads => absurd reads Parser.not_reads_exhausted
  | fuel + 1, left, value, tokens, rest, stops, reads => by
    rw [Tier.extend, Parser.reads_accept?_bind, same.operators] at reads
    rcases reads with ⟨noOperator, reads⟩ | ⟨operator, middle, rfl, _, reads⟩
    · obtain ⟨rfl, rfl⟩ := Parser.reads_pure.mp reads
      exact noOperator.append stops
    · obtain ⟨right, behind, readRight, reads⟩ := Parser.reads_bind.mp reads
      exact extend_stops same greedy (greedy _ _ _ readRight) reads

theorem parser_greedy (same : tier.Implements level inner) (greedy : operand.Greedy inner)
    {fuel : Nat} : (tier.parser fuel operand).Greedy level := by
  intro tokens value rest reads
  rw [Tier.parser, Parser.reads_bind] at reads
  obtain ⟨first, middle, readFirst, reads⟩ := reads
  have stops := same.extend_stops greedy (greedy _ _ _ readFirst) reads
  exact stops.mono (Level.extending_subset_append same.inner same.binary)

end Tier.Implements

namespace ExprParser

variable {expression : Parser Expr}

theorem operation_greedy {fuel : Nat} : (operation fuel expression).Greedy .disjunction :=
  disjunction_implements.parser_greedy <| conjunction_implements.parser_greedy <|
    equality_implements.parser_greedy <| comparison_implements.parser_greedy <|
    term_implements.parser_greedy <| factor_implements.parser_greedy <| unary_greedy call_greedy

theorem assignment_greedy (greedy : expression.Greedy .assignment) {fuel : Nat} :
    (assignment fuel expression).Greedy .assignment := by
  intro tokens value rest reads
  rw [assignment, Parser.reads_bind] at reads
  obtain ⟨target, middle, readTarget, reads⟩ := reads
  rw [Parser.reads_accept?_bind] at reads
  rcases reads with ⟨noEqual, reads⟩ | ⟨equals, behind, rfl, _, reads⟩
  · obtain ⟨rfl, rfl⟩ := Parser.reads_pure.mp reads
    exact noEqual.append (operation_greedy _ _ _ readTarget)
  -- An assignment ends where its value does.
  · obtain ⟨assigned, left, readAssigned, reads⟩ := Parser.reads_bind.mp reads
    have stops := greedy _ _ _ readAssigned
    split at reads
    · obtain ⟨_, rfl⟩ := Parser.reads_pure.mp reads
      exact stops
    · obtain ⟨done, start, noted, _⟩ := Parser.reads_bind.mp reads
      exact absurd noted Parser.not_reads_noteAt

theorem expression_greedy (fuel : Nat) : (ExprParser.expression fuel).Greedy .assignment := by
  induction fuel with
  | zero => exact fun _ _ _ reads => absurd reads Parser.not_reads_exhausted
  | succ fuel ih => exact assignment_greedy ih

end ExprParser

end Syntax

theorem Grammar.Declaration.closed {tokens : List Token} {expr : Expr}
    (derived : Declaration tokens (.expression expr)) : Closed tokens expr := by
  cases derived with
  | «variable» derived => cases derived
  | statement derived =>
    generalize same : Stmt.expression expr = stmt at derived
    cases derived with
    | expression closed => cases same; exact closed
    | @forLoop _ _ _ _ _ _ _ _ initializer => cases initializer <;> cases same
    | _ => cases same

/-- A program is one expression statement exactly if its tokens are an expression with a
semicolon. -/
theorem Program.ofTokens_eq_expression_iff {used : List Token} {expr : Expr} {semicolon : Token}
    (isSemicolon : semicolon.kind = .semicolon) :
    ofTokens (used ++ [semicolon]) = ⟨[.expression expr], []⟩ ↔
      Grammar.Phrase .assignment used expr := by
  constructor
  · intro parsed
    have derived := derives_of_ofTokens_eq parsed
    generalize same : used ++ [semicolon] = tokens at derived
    cases derived with
    | more first others =>
      cases others
      obtain @⟨last, tokens, _, phrase, _⟩ := first.closed
      rw [List.append_nil] at same
      obtain ⟨rfl, _⟩ := List.append_inj' same rfl
      exact phrase
  · intro phrase
    have closed : Closed (used ++ [semicolon]) expr := .intro phrase isSemicolon
    exact ofTokens_eq_of_derives
      (List.append_nil (used ++ [semicolon]) ▸ .more (.statement (.expression closed)) .none)

namespace Phrase

theorem ofTokens_eq_iff_reads {tokens rest : List Token} {expr : Expr} :
    ofTokens tokens = ⟨some expr, rest, []⟩ ↔
      (ExprParser.expression (tokens.length + 1)).Reads tokens expr rest := by
  unfold ofTokens Parser.Reads
  cases ExprParser.expression (tokens.length + 1) tokens <;> simp

/-- An expression that is read without errors takes the tokens up to the first that could not
go on with it, and in front of those that are left it is read exactly if with a semicolon
behind it the program is that one expression statement. -/
theorem ofTokens_longest {semicolon : Token} (isSemicolon : semicolon.kind = .semicolon) :
    (∀ tokens expr rest, ofTokens tokens = ⟨some expr, rest, []⟩ →
      ∃ used, tokens = used ++ rest) ∧
    ∀ used rest expr, ofTokens (used ++ rest) = ⟨some expr, rest, []⟩ ↔
      Program.ofTokens (used ++ [semicolon]) = ⟨[.expression expr], []⟩ ∧
        ∀ next ∈ rest.head?, next.kind ∉ Level.assignment.extending := by
  constructor
  · intro tokens expr rest parsed
    obtain ⟨used, split, _⟩ := ExprParser.expression_sound _ _ _ _ (ofTokens_eq_iff_reads.mp parsed)
    exact ⟨used, split⟩
  · intro used rest expr
    rw [ofTokens_eq_iff_reads, Program.ofTokens_eq_expression_iff isSemicolon]
    constructor
    · intro reads
      obtain ⟨taken, split, phrase⟩ := ExprParser.expression_sound _ _ _ _ reads
      obtain rfl := List.append_cancel_right split
      exact ⟨phrase, ExprParser.expression_greedy _ _ _ _ reads⟩
    · rintro ⟨phrase, stops⟩
      exact StmtParser.expression_reads phrase (by rw [List.length_append]; omega) stops

/-- A negated call with a comma behind it. -/
def callBeforeComma : List Token := [⟨.minus, "-", none, 1⟩, ⟨.identifier, "f", none, 1⟩,
  ⟨.leftParen, "(", none, 1⟩, ⟨.nilWord, "nil", none, 1⟩, ⟨.rightParen, ")", none, 1⟩,
  ⟨.comma, ",", none, 1⟩]

/-- The call is read up to the comma, and not only up to its parenthesis. -/
theorem ofTokens_longest_callBeforeComma :
    let semicolon : Token := ⟨.semicolon, ";", none, 1⟩
    let negated : Expr := .unary ⟨.minus, "-", none, 1⟩ (.call
      (.reference ⟨.identifier, "f", none, 1⟩ none) ⟨.rightParen, ")", none, 1⟩ [.literal .nil])
    semicolon.kind = .semicolon ∧
      ofTokens callBeforeComma = ⟨some negated, [⟨.comma, ",", none, 1⟩], []⟩ ∧
      Program.ofTokens (callBeforeComma.take 5 ++ [semicolon]) = ⟨[.expression negated], []⟩ := by
  intro semicolon negated
  have parsed : ofTokens (callBeforeComma.take 5 ++ [⟨.comma, ",", none, 1⟩]) =
      ⟨some negated, [⟨.comma, ",", none, 1⟩], []⟩ := rfl
  have isSemicolon : semicolon.kind = .semicolon := rfl
  exact ⟨isSemicolon, parsed, (((ofTokens_longest isSemicolon).2 _ _ negated).mp parsed).1⟩

end Phrase

end Lox
