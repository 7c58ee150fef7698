import Lox.Proofs.Grammar.StmtCompleteness

/-! Readings that stop at their first error.

`Halts` is the counterpart of `Reads`: no error is met before the one at the first of the
tokens that are left. A statement halts where the last of its parts does, and an expression
halts in front of a token that begins none.
-/

set_option autoImplicit false

namespace Lox.Syntax

open Grammar
open Token (Kind)

variable {α β : Type}

/-- The parser meets no error before it stops in front of the tokens that are left. -/
def Parser.Halts (parser : Parser α) (tokens rest : List Token) (cause : SyntaxError.Cause) : Prop :=
  parser tokens = .stopped rest [] ⟨rest.head?, cause⟩

namespace Parser

variable {tokens middle rest : List Token} {cause : SyntaxError.Cause}

theorem Halts.bind {parser : Parser β} {next : β → Parser α} (halts : parser.Halts tokens rest cause) :
    (parser >>= next).Halts tokens rest cause := by
  rw [Halts, bind_apply, halts]
  rfl

theorem Halts.map {parser : Parser β} {change : β → α} (halts : parser.Halts tokens rest cause) :
    (change <$> parser).Halts tokens rest cause :=
  halts.bind

theorem Reads.halts_bind {parser : Parser β} {next : β → Parser α} {value : β}
    (reads : parser.Reads tokens value middle) (halts : (next value).Halts middle rest cause) :
    (parser >>= next).Halts tokens rest cause := by
  rw [Halts, bind_apply, reads]
  exact (Parsed.ok_bind value middle _).trans halts

theorem halts_expect {kind : Kind} (stops : Stops [kind] tokens) :
    (expect kind cause).Halts tokens tokens cause :=
  (reads_accept?_none.mpr ⟨rfl, stops⟩).halts_bind rfl

end Parser

namespace ExprParser

variable {expression : Parser Expr} {fuel : Nat} {tokens : List Token}

theorem primary_halts (stops : Stops Level.primary.starters tokens) :
    (primary expression).Halts tokens tokens .expression := by
  cases tokens with
  | nil => rfl
  | cons token tail =>
    rw [stops_cons] at stops
    rw [Parser.Halts, primary]
    split <;> first | rfl | simp_all [Level.starters]

theorem unary_halts {operand : Parser Expr} (halts : operand.Halts tokens tokens .expression)
    (stops : Stops Level.unary.starters tokens) :
    (unary operand).Halts tokens tokens .expression := by
  cases tokens with
  | nil => exact halts
  | cons token tail =>
    rw [stops_cons] at stops
    have noOperator : ¬ (token.kind = .bang ∨ token.kind = .minus) := by
      rintro (isOperator | isOperator) <;> simp [isOperator, Level.starters] at stops
    rw [Parser.Halts, unary, if_neg noOperator]
    exact halts

theorem expression_halts (stops : Stops Level.assignment.starters tokens) :
    (ExprParser.expression (fuel + 1)).Halts tokens tokens .expression := by
  have call : (call fuel (ExprParser.expression fuel)).Halts tokens tokens .expression :=
    (primary_halts (stops.mono (by simp [Level.starters]))).bind
  have tiers : ∀ (tiers : List Tier) {operand : Parser Expr},
      operand.Halts tokens tokens .expression →
      (tiers.foldl (Tier.parser fuel) operand).Halts tokens tokens .expression := by
    intro tiers
    induction tiers with
    | nil => exact id
    | cons tier tiers ih => exact fun halts => ih halts.bind
  exact (tiers Tier.all (unary_halts call stops)).bind

end ExprParser

namespace StmtParser

variable {fuel : Nat} {used rest : List Token} {statement : Parser Stmt}
  {declaration : Parser (Option Stmt)} {cause : SyntaxError.Cause}

theorem closedBy_halts {kind : Kind} {expr : Expr} (derived : Phrase .assignment used expr)
    (short : used.length < fuel) (stops : Stops (kind :: Level.assignment.extending) rest) :
    (closedBy fuel kind cause).Halts (used ++ rest) rest cause :=
  (expression_reads derived short (stops.mono (by simp))).halts_bind
    (Parser.halts_expect (stops.mono (by simp))).bind

theorem expressionStatement_halts {expr : Expr} (derived : Phrase .assignment used expr)
    (short : used.length < fuel) (stops : Stops (.semicolon :: Level.assignment.extending) rest) :
    (expressionStatement fuel).Halts (used ++ rest) rest .semicolonAfterExpression :=
  (closedBy_halts derived short stops).bind

theorem printStatement_halts {expr : Expr} (derived : Phrase .assignment used expr)
    (short : used.length < fuel) (stops : Stops (.semicolon :: Level.assignment.extending) rest) :
    (printStatement fuel).Halts (used ++ rest) rest .semicolonAfterValue :=
  (closedBy_halts derived short stops).bind

theorem returnStatement_halts {word : Token} {expr : Expr} (derived : Phrase .assignment used expr)
    (short : used.length < fuel) (stops : Stops (.semicolon :: Level.assignment.extending) rest) :
    (returnStatement fuel word).Halts (used ++ rest) rest .semicolonAfterReturn := by
  obtain ⟨first, tail, rfl, isFirst⟩ := derived.head
  have noSemicolon : first.kind ≠ .semicolon := by
    intro same
    simp [same, Level.starters] at isFirst
  have readValue : (optional fuel .semicolon).Reads (first :: tail ++ rest) (some expr) rest :=
    Parser.reads_bind.mpr ⟨false, _, Parser.reads_nextIs.mpr ⟨by simp [noSemicolon], rfl⟩,
      Parser.reads_map.mpr ⟨expr, expression_reads derived short (stops.mono (by simp)), rfl⟩⟩
  exact readValue.halts_bind (Parser.halts_expect (stops.mono (by simp))).bind

theorem returnStatement_halts_bare {word : Token}
    (stops : Stops (.semicolon :: Level.assignment.starters) rest) :
    (returnStatement (fuel + 1) word).Halts rest rest .expression := by
  have noSemicolon : rest.head?.any (·.kind = .semicolon) = false := by
    cases rest with
    | nil => rfl
    | cons token tail => simp_all
  have noValue : (optional (fuel + 1) .semicolon).Halts rest rest .expression :=
    (Parser.reads_nextIs.mpr ⟨noSemicolon.symm, rfl⟩).halts_bind
      (ExprParser.expression_halts (stops.mono (by simp))).map
  exact noValue.bind

theorem varDecl_halts_bare {name : Token} (isName : name.kind = .identifier)
    (stops : Stops [.equal, .semicolon] rest) :
    (varDecl fuel).Halts (name :: rest) rest .semicolonAfterVariable := by
  refine (Parser.reads_expect.mpr ⟨rfl, isName⟩).halts_bind ?_
  refine @Parser.Reads.halts_bind _ _ _ rest _ _ _ _ none ?readNone
    (Parser.halts_expect (stops.mono (by simp))).bind
  rw [Parser.reads_accept?_bind]
  exact .inl ⟨stops.mono (by simp), Parser.reads_pure.mpr ⟨rfl, rfl⟩⟩

theorem varDecl_halts {name equals : Token} {expr : Expr} (isName : name.kind = .identifier)
    (isEqual : equals.kind = .equal) (derived : Phrase .assignment used expr)
    (short : used.length < fuel) (stops : Stops (.semicolon :: Level.assignment.extending) rest) :
    (varDecl fuel).Halts (name :: equals :: (used ++ rest)) rest .semicolonAfterVariable := by
  refine (Parser.reads_expect.mpr ⟨rfl, isName⟩).halts_bind ?_
  refine @Parser.Reads.halts_bind _ _ _ rest _ _ _ _ (some expr) ?readValue
    (Parser.halts_expect (stops.mono (by simp))).bind
  rw [Parser.reads_accept?_bind]
  refine .inr ⟨equals, _, rfl, List.mem_singleton.mpr isEqual, ?_⟩
  exact Parser.reads_map.mpr ⟨expr, expression_reads derived short (stops.mono (by simp)), rfl⟩

section
variable {opening closing : Token} {test tokens : List Token} {condition : Expr}

theorem whileStatement_halts (isOpening : opening.kind = .leftParen)
    (derived : Phrase .assignment test condition) (isClosing : closing.kind = .rightParen)
    (short : test.length < fuel) (halts : statement.Halts tokens rest cause) :
    (whileStatement fuel statement).Halts (opening :: (test ++ closing :: tokens)) rest cause :=
  (Parser.reads_expect.mpr ⟨rfl, isOpening⟩).halts_bind <|
    (closedBy_complete derived short isClosing (by decide)).halts_bind halts.bind

theorem ifStatement_halts (isOpening : opening.kind = .leftParen)
    (derived : Phrase .assignment test condition) (isClosing : closing.kind = .rightParen)
    (short : test.length < fuel) (halts : statement.Halts tokens rest cause) :
    (ifStatement fuel statement).Halts (opening :: (test ++ closing :: tokens)) rest cause :=
  (Parser.reads_expect.mpr ⟨rfl, isOpening⟩).halts_bind <|
    (closedBy_complete derived short isClosing (by decide)).halts_bind halts.bind

theorem ifStatement_halts_else (complete : statement.CompleteStatement fuel) {otherwise : Token}
    {others : List Token} {yes : Stmt} (isOpening : opening.kind = .leftParen)
    (derived : Phrase .assignment test condition) (isClosing : closing.kind = .rightParen)
    (first : Statement false tokens yes) (isElse : otherwise.kind = .elseWord)
    (short : test.length + tokens.length < fuel) (halts : statement.Halts others rest cause) :
    (ifStatement fuel statement).Halts
      (opening :: (test ++ closing :: (tokens ++ otherwise :: others))) rest cause := by
  have readTest : (closedBy fuel .rightParen .parenAfterIfCondition).Reads
      (test ++ closing :: (tokens ++ otherwise :: others)) condition
      (tokens ++ otherwise :: others) :=
    closedBy_complete derived (by omega) isClosing (by decide)
  have readYes := complete _ _ _ (otherwise :: others) first (by omega) nofun
  have readElse : (Parser.accept? [.elseWord]).Reads (otherwise :: others) (some otherwise) others :=
    Parser.reads_accept?_some.mpr ⟨rfl, List.mem_singleton.mpr isElse⟩
  exact (Parser.reads_expect.mpr ⟨rfl, isOpening⟩).halts_bind <|
    readTest.halts_bind <| readYes.halts_bind <| readElse.halts_bind halts.bind

theorem forStatement_halts {semicolon : Token} {first step : List Token} {initializer : Option Stmt}
    {condition increment : Option Expr} (isOpening : opening.kind = .leftParen)
    (start : Initializer first initializer) (derivedTest : Clause test condition)
    (isSemicolon : semicolon.kind = .semicolon) (derivedStep : Clause step increment)
    (isClosing : closing.kind = .rightParen)
    (short : first.length + test.length + step.length < fuel)
    (halts : statement.Halts tokens rest cause) :
    (forStatement fuel statement).Halts
      (opening :: (first ++ (test ++ semicolon :: (step ++ closing :: tokens)))) rest cause := by
  have readTest : (optional fuel .semicolon).Reads (test ++ semicolon :: (step ++ closing :: tokens))
      condition (semicolon :: (step ++ closing :: tokens)) :=
    optional_complete derivedTest (by omega) isSemicolon (by decide)
  have readStep : (optional fuel .rightParen).Reads (step ++ closing :: tokens) increment
      (closing :: tokens) :=
    optional_complete derivedStep (by omega) isClosing (by decide)
  exact (Parser.reads_expect.mpr ⟨rfl, isOpening⟩).halts_bind <|
    (forInitializer_complete start (by omega)).halts_bind <| readTest.halts_bind <|
      (Parser.reads_expect.mpr ⟨rfl, isSemicolon⟩).halts_bind <| readStep.halts_bind <|
        (Parser.reads_expect.mpr ⟨rfl, isClosing⟩).halts_bind halts.bind

end

end StmtParser

end Lox.Syntax
