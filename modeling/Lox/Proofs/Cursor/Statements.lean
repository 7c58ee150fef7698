import Lox.Proofs.Cursor.Expressions
import Lox.Proofs.Cursor.Recovery

/-! Statements read with a cursor.

Rule by rule the cursor follows the parser of statements, and it moves on in every
declaration that begins at a token.
-/

set_option autoImplicit false

namespace Lox.Syntax.Cursor

open Token (Kind)

variable {front : List Token} {last : Token} (closes : Closes front last)
include closes

/-! The parts of statements -/

theorem follows_closedBy (fuel : Nat) (kind : Kind) (cause : SyntaxError.Cause) : Follows front last
    (do
      let value ← Reading.expression fuel
      let _ ← Reading.consume kind cause
      return value)
    (StmtParser.closedBy fuel kind cause) :=
  (follows_expression closes fuel).bind fun value =>
    (Follows.consume closes kind cause).bind fun _ => .pure value

theorem Follows.closedBy {β : Type} {next : Expr → Reading β} {more : Expr → Parser β} (fuel : Nat)
    (kind : Kind) (cause : SyntaxError.Cause)
    (goesOn : ∀ value, Follows front last (next value) (more value)) : Follows front last
      (do
        let value ← Reading.expression fuel
        let _ ← Reading.consume kind cause
        next value)
      (StmtParser.closedBy fuel kind cause >>= more) := by
  have whole := (follows_closedBy closes fuel kind cause).bind goesOn
  simpa only [bind_assoc, pure_bind] using whole

theorem follows_expressionStatement (fuel : Nat) :
    Follows front last (Reading.expressionStatement fuel) (StmtParser.expressionStatement fuel) :=
  .closedBy closes fuel .semicolon .semicolonAfterExpression fun value => .pure (Stmt.expression value)

theorem follows_printStatement (fuel : Nat) :
    Follows front last (Reading.printStatement fuel) (StmtParser.printStatement fuel) :=
  .closedBy closes fuel .semicolon .semicolonAfterValue fun value => .pure (Stmt.print value)

theorem follows_optional (fuel : Nat) (finish : Kind) :
    Follows front last (Reading.optional fuel finish) (StmtParser.optional fuel finish) :=
  (Follows.check closes finish).bind fun _ =>
    .ite (.pure none) ((follows_expression closes fuel).map some)

theorem follows_varDecl (fuel : Nat) :
    Follows front last (Reading.varDecl fuel) (StmtParser.varDecl fuel) := by
  refine (Follows.consume closes .identifier .variableName).bind fun name => ?_
  refine Follows.bind (.accept closes (.pure none) fun _ _ => .of_follows ?_) fun initializer => ?_
  · exact (follows_expression closes fuel).map some
  · exact (Follows.consume closes .semicolon .semicolonAfterVariable).bind fun _ =>
      .pure (Stmt.varDecl name initializer)

theorem follows_returnStatement (fuel : Nat) (keyword : Token) :
    FollowsBehind front last keyword (Reading.returnStatement fuel)
      (StmtParser.returnStatement fuel keyword) := by
  refine .previous ((follows_optional closes fuel .semicolon).bind fun value => ?_)
  exact (Follows.consume closes .semicolon .semicolonAfterReturn).bind fun _ =>
    .pure (Stmt.ret keyword value)

theorem follows_forInitializer (fuel : Nat) :
    Follows front last (Reading.forInitializer fuel) (StmtParser.forInitializer fuel) := by
  intro cursor rest stands
  -- Three readings are possible; the choice of the cursor is compared with each.
  have fallback := (follows_expressionStatement closes fuel).map some
  have declared := (follows_varDecl closes fuel).map some
  rw [StmtParser.forInitializer, Parser.bind_apply]
  cases rest with
  | nil =>
    simp only [Reading.forInitializer, Reading.choice_nil closes stands]
    exact (fallback cursor [] stands).after_nil rfl
  | cons token rest =>
    simp only [Reading.forInitializer, Reading.choice_cons closes stands, Parser.accept?,
      List.mem_cons, List.not_mem_nil, or_false]
    by_cases empty : token.kind = .semicolon
    · have behind : Follows front last (pure none)
          (if token.kind = .semicolon then pure none else some <$> StmtParser.varDecl fuel) := by
        rw [if_pos empty]
        exact .pure none
      rw [if_pos empty, if_pos (.inl empty)]
      exact (behind _ rest stands.next).after_nil rfl
    · by_cases declares : token.kind = .varWord
      · have behind : Follows front last (do return some (← Reading.varDecl fuel))
            (if token.kind = .semicolon then pure none else some <$> StmtParser.varDecl fuel) := by
          rw [if_neg empty]
          exact (follows_varDecl closes fuel).map some
        rw [if_neg empty, if_pos declares, if_pos (.inr declares)]
        exact (behind _ rest stands.next).after_nil rfl
      · rw [if_neg empty, if_neg declares, if_neg (not_or.mpr ⟨empty, declares⟩)]
        exact (fallback cursor _ stands).after_nil rfl

theorem follows_parameters (fuel : Nat) :
    Follows front last (Reading.parameters fuel) (StmtParser.parameters fuel) :=
  (Follows.check closes .rightParen).bind fun _ =>
    .ite (.pure []) (.items closes (.consume closes .identifier .parameterName) .tooManyParameters fuel 0)

/-! Statements around other statements -/

section
variable {reading : Reading Stmt} {parser : Parser Stmt} (follows : Follows front last reading parser)
include follows

theorem follows_whileStatement (fuel : Nat) :
    Follows front last (Reading.whileStatement fuel reading) (StmtParser.whileStatement fuel parser) := by
  refine (Follows.consume closes .leftParen .parenAfterWhile).bind fun _ => ?_
  refine .closedBy closes fuel .rightParen .parenAfterCondition fun condition => ?_
  exact follows.bind fun body => .pure (Stmt.loop condition body)

theorem follows_ifStatement (fuel : Nat) :
    Follows front last (Reading.ifStatement fuel reading) (StmtParser.ifStatement fuel parser) := by
  refine (Follows.consume closes .leftParen .parenAfterIf).bind fun _ => ?_
  refine .closedBy closes fuel .rightParen .parenAfterIfCondition fun condition => ?_
  refine follows.bind fun yes => .accept closes (.pure (Stmt.conditional condition yes none)) ?_
  exact fun _ _ => .of_follows (follows.bind fun no => .pure (Stmt.conditional condition yes (some no)))

theorem follows_forStatement (fuel : Nat) :
    Follows front last (Reading.forStatement fuel reading) (StmtParser.forStatement fuel parser) := by
  refine (Follows.consume closes .leftParen .parenAfterFor).bind fun _ => ?_
  refine (follows_forInitializer closes fuel).bind fun initializer => ?_
  refine (follows_optional closes fuel .semicolon).bind fun condition => ?_
  refine (Follows.consume closes .semicolon .semicolonAfterCondition).bind fun _ => ?_
  refine (follows_optional closes fuel .rightParen).bind fun increment => ?_
  refine (Follows.consume closes .rightParen .parenAfterClauses).bind fun _ => ?_
  exact follows.bind fun body => .pure (forLoop initializer condition increment body)

end

/-! Declarations in a row -/

section
variable {reading : Reading (Option Stmt)} {parser : Parser (Option Stmt)}
  (follows : Follows front last reading parser)
include follows

omit closes in
theorem follows_declarations {stops : Reading Bool} {closing : List Kind}
    (stopping : ∀ cursor rest, Stands front cursor rest → stops (front ++ [last]) cursor =
      .done (rest.head?.all (·.kind ∈ closing)) cursor) : ∀ fuel : Nat,
    Follows front last (Reading.declarations stops reading fuel)
      (StmtParser.declarations parser closing fuel)
  | 0 => .exhausted
  | fuel + 1 => by
    intro cursor rest stands
    rw [Reading.declarations, bind_apply, stopping cursor rest stands]
    unfold StmtParser.declarations
    cases rest.head?.all (·.kind ∈ closing) with
    | true => exact .silent stands rfl
    | false =>
      refine (follows cursor rest stands).bind fun first after rest stands => ?_
      refine (follows_declarations stopping fuel after rest stands).bind fun others after rest stands => ?_
      exact .silent stands rfl

theorem follows_block (fuel : Nat) :
    Follows front last (Reading.block fuel reading) (StmtParser.block fuel parser) := by
  refine (follows_declarations follows (fun cursor rest stands => ?_) fuel).bind fun body => ?_
  · cases rest with
    | nil => simp [Reading.check_eq closes stands, Reading.atEnd_eq closes stands]
    | cons token rest =>
      by_cases same : token.kind = .rightBrace
      · simp [Reading.check_eq closes stands, same]
      · simp [Reading.check_eq closes stands, Reading.atEnd_eq closes stands, same]
  · exact (Follows.consume closes .rightBrace .braceAfterBlock).bind fun _ => .pure body

theorem follows_funDecl (fuel : Nat) :
    Follows front last (Reading.funDecl fuel reading) (StmtParser.funDecl fuel parser) := by
  refine (Follows.consume closes .identifier .functionName).bind fun name => ?_
  refine (Follows.consume closes .leftParen .parenAfterFunctionName).bind fun _ => ?_
  refine (follows_parameters closes fuel).bind fun params => ?_
  refine (Follows.consume closes .rightParen .parenAfterParameters).bind fun _ => ?_
  refine (Follows.consume closes .leftBrace .braceBeforeBody).bind fun _ => ?_
  exact (follows_block closes follows fuel).bind fun body => .pure (Stmt.funDecl name params body)

end

/-! One statement or declaration -/

section
variable {reading : Reading Stmt} {parser : Parser Stmt} (follows : Follows front last reading parser)
  {whole : Reading (Option Stmt)} {other : Parser (Option Stmt)}
  (declares : Follows front last whole other)
include follows declares

theorem follows_statementWith (fuel : Nat) : Follows front last
    (Reading.statementWith fuel reading whole) (StmtParser.statementWith fuel parser other) := by
  intro cursor rest stands
  cases rest with
  | nil =>
    simp only [Reading.statementWith, Reading.choice_nil closes stands]
    exact follows_expressionStatement closes fuel cursor [] stands
  | cons token rest =>
    rw [StmtParser.statementWith]
    split
    -- No word of a statement is next, so both parsers read an expression.
    case h_7 noFor noIf noPrint noReturn noWhile noBrace =>
      simp only [Reading.statementWith, Reading.choice_cons closes stands, List.mem_singleton,
        if_neg noFor, if_neg noIf, if_neg noPrint, if_neg noReturn, if_neg noWhile, if_neg noBrace]
      exact follows_expressionStatement closes fuel cursor _ stands
    all_goals
      simp only [Reading.statementWith, Reading.choice_cons closes stands, List.mem_singleton,
        ‹token.kind = _›, reduceCtorEq, if_true, if_false]
      refine Agrees.of_next ?_
    · exact follows_forStatement closes follows fuel _ rest stands.next
    · exact follows_ifStatement closes follows fuel _ rest stands.next
    · exact follows_printStatement closes fuel _ rest stands.next
    · exact follows_returnStatement closes fuel token cursor rest stands
    · exact follows_whileStatement closes follows fuel _ rest stands.next
    · exact (follows_block closes declares fuel).map Stmt.block _ rest stands.next

theorem follows_declarationWith (fuel : Nat) : Follows front last
    (Reading.declarationWith fuel reading whole) (StmtParser.declarationWith fuel parser other) := by
  intro cursor rest stands
  cases rest with
  | nil =>
    simp only [Reading.declarationWith, Reading.choice_nil closes stands]
    exact follows cursor [] stands
  | cons token rest =>
    rw [StmtParser.declarationWith]
    split
    case h_3 noFun noVar =>
      simp only [Reading.declarationWith, Reading.choice_cons closes stands, List.mem_singleton,
        if_neg noFun, if_neg noVar]
      exact follows cursor _ stands
    all_goals
      simp only [Reading.declarationWith, Reading.choice_cons closes stands, List.mem_singleton,
        ‹token.kind = _›, reduceCtorEq, if_true, if_false]
      refine Agrees.of_next ?_
    · exact follows_funDecl closes declares fuel _ rest stands.next
    · exact follows_varDecl closes fuel _ rest stands.next

end

omit closes in
theorem declaration_shortens {fuel : Nat} {tokens rest : List Token} {value : Option Stmt}
    {errors : List SyntaxError} (present : tokens ≠ [])
    (answer : StmtParser.declaration fuel tokens = .ok value rest errors) :
    rest.length < tokens.length := by
  -- More fuel gives the same answer, and enough of it is known to go on.
  have enough : 2 * (tokens.length + 1) < fuel + 2 * tokens.length + 3 := by omega
  obtain ⟨found, left, others, whole, shorter⟩ :=
    StmtParser.declaration_advances enough tokens present (Nat.lt_succ_self _)
  have refined := (StmtParser.statement_declaration_refined
    (Nat.le_add_right fuel (2 * tokens.length + 3))).2 tokens
  have same := refined (by simp [answer])
  rw [answer, ← Nat.add_assoc, whole, Parsed.ok.injEq] at same
  rw [← same.2.1]
  exact shorter

theorem follows_statement_declaration (present : front ≠ []) : ∀ fuel : Nat,
    Follows front last (Reading.statement fuel) (StmtParser.statement fuel) ∧
      Follows front last (Reading.declaration fuel) (StmtParser.declaration fuel)
  | 0 => ⟨.exhausted, .exhausted⟩
  | fuel + 1 => by
    obtain ⟨follows, declares⟩ := follows_statement_declaration present fuel
    refine ⟨follows_statementWith closes follows declares fuel, ?_⟩
    refine follows_spanned ?_ fun tokens value rest errors => declaration_shortens
    exact follows_attempt closes (follows_declarationWith closes follows declares fuel) present

end Lox.Syntax.Cursor
