import Lox.Proofs.Grammar.ExprSoundness
import Lox.Syntax.StmtParser

/-! Declarations that are read without errors are declarations of the grammar.

A statement that ends in an `if` without its `else` is read only where no `else`
comes next; that is how an `else` finds the nearest `if`.
-/

set_option autoImplicit false

namespace Lox.Syntax

open Grammar
open Token (Kind)

namespace StmtParser

variable {fuel : Nat} {tokens rest : List Token}

theorem closedBy_sound {kind : Kind} {cause : SyntaxError.Cause} {expr : Expr}
    (reads : (closedBy fuel kind cause).Reads tokens expr rest) :
    ∃ used closing, tokens = used ++ closing :: rest ∧ Phrase .assignment used expr ∧
      closing.kind = kind := by
  rw [closedBy, Parser.reads_bind] at reads
  obtain ⟨inner, middle, readInner, reads⟩ := reads
  rw [Parser.reads_bind] at reads
  obtain ⟨closing, left, readClosing, reads⟩ := reads
  obtain ⟨rfl, rfl⟩ := Parser.reads_pure.mp reads
  obtain ⟨rfl, same⟩ := Parser.reads_expect.mp readClosing
  obtain ⟨used, rfl, derived⟩ := ExprParser.expression_sound fuel _ _ _ readInner
  exact ⟨used, closing, rfl, derived, same⟩

theorem expressionStatement_sound {stmt : Stmt}
    (reads : (expressionStatement fuel).Reads tokens stmt rest) :
    ∃ used expr, tokens = used ++ rest ∧ Closed used expr ∧ stmt = .expression expr := by
  rw [expressionStatement, Parser.reads_bind] at reads
  obtain ⟨expr, middle, readInner, reads⟩ := reads
  obtain ⟨rfl, rfl⟩ := Parser.reads_pure.mp reads
  obtain ⟨used, closing, rfl, derived, same⟩ := closedBy_sound readInner
  exact ⟨used ++ [closing], expr, by simp, .intro derived same, rfl⟩

theorem optional_sound {kind : Kind} : (optional fuel kind).Sound Clause := by
  intro tokens clause rest reads
  rw [optional, Parser.reads_bind] at reads
  obtain ⟨next, middle, readNext, reads⟩ := reads
  obtain ⟨_, rfl⟩ := Parser.reads_nextIs.mp readNext
  cases next with
  | true =>
    obtain ⟨rfl, rfl⟩ := Parser.reads_pure.mp reads
    exact ⟨[], rfl, .absent⟩
  | false =>
    obtain ⟨expr, readInner, rfl⟩ := Parser.reads_map.mp reads
    obtain ⟨used, rfl, derived⟩ := ExprParser.expression_sound fuel _ _ _ readInner
    exact ⟨used, rfl, .present derived⟩

theorem varDecl_sound {word : Token} {stmt : Stmt} (isWord : word.kind = .varWord)
    (reads : (varDecl fuel).Reads tokens stmt rest) :
    ∃ used, tokens = used ++ rest ∧ Variable (word :: used) stmt := by
  rw [varDecl, Parser.reads_bind] at reads
  obtain ⟨name, middle, readName, reads⟩ := reads
  obtain ⟨rfl, isName⟩ := Parser.reads_expect.mp readName
  rw [Parser.reads_bind] at reads
  obtain ⟨initializer, left, readInitializer, reads⟩ := reads
  rw [Parser.reads_bind] at reads
  obtain ⟨semicolon, behind, readSemicolon, reads⟩ := reads
  obtain ⟨rfl, rfl⟩ := Parser.reads_pure.mp reads
  obtain ⟨rfl, isSemicolon⟩ := Parser.reads_expect.mp readSemicolon
  rw [Parser.reads_accept?_bind] at readInitializer
  rcases readInitializer with ⟨_, readNone⟩ | ⟨equals, start, rfl, isEqual, readSome⟩
  · obtain ⟨rfl, rfl⟩ := Parser.reads_pure.mp readNone
    exact ⟨[name, semicolon], rfl, .bare isWord isName isSemicolon⟩
  · obtain ⟨value, readValue, rfl⟩ := Parser.reads_map.mp readSome
    obtain ⟨used, rfl, derived⟩ := ExprParser.expression_sound fuel _ _ _ readValue
    exact ⟨name :: equals :: (used ++ [semicolon]), by simp,
      .initialized isWord isName (List.mem_singleton.mp isEqual) (.intro derived isSemicolon)⟩

theorem forInitializer_sound : (forInitializer fuel).Sound Initializer := by
  intro tokens initializer rest reads
  rw [forInitializer, Parser.reads_accept?_bind] at reads
  rcases reads with ⟨_, reads⟩ | ⟨token, middle, rfl, isFirst, reads⟩
  · obtain ⟨stmt, readStmt, rfl⟩ := Parser.reads_map.mp reads
    obtain ⟨used, expr, rfl, closed, rfl⟩ := expressionStatement_sound readStmt
    exact ⟨used, rfl, .expression closed⟩
  · dsimp only at reads
    by_cases isSemicolon : token.kind = .semicolon
    · rw [if_pos isSemicolon] at reads
      obtain ⟨rfl, rfl⟩ := Parser.reads_pure.mp reads
      exact ⟨[token], rfl, .absent isSemicolon⟩
    · rw [if_neg isSemicolon] at reads
      obtain ⟨stmt, readStmt, rfl⟩ := Parser.reads_map.mp reads
      have isWord : token.kind = .varWord := by simpa [isSemicolon] using isFirst
      obtain ⟨used, rfl, variable_⟩ := varDecl_sound isWord readStmt
      exact ⟨token :: used, rfl, .variable variable_⟩

theorem parameters_sound : (parameters fuel).Sound (Listed Name) := by
  intro tokens names rest reads
  rw [parameters, Parser.reads_bind] at reads
  obtain ⟨next, middle, readNext, reads⟩ := reads
  obtain ⟨_, rfl⟩ := Parser.reads_nextIs.mp readNext
  cases next with
  | true =>
    obtain ⟨rfl, rfl⟩ := Parser.reads_pure.mp reads
    exact ⟨[], rfl, .none⟩
  | false =>
    have name : (Parser.expect .identifier .parameterName).Sound Name := by
      intro tokens name rest reads
      obtain ⟨rfl, isName⟩ := Parser.reads_expect.mp reads
      exact ⟨[name], rfl, .intro isName⟩
    obtain ⟨used, rfl, derived, short⟩ := name.separated reads
    exact ⟨used, rfl, .some derived short⟩

end StmtParser

theorem forLoop_eq (initializer : Option Stmt) (condition increment : Option Expr) (body : Stmt) :
    forLoop initializer condition increment body =
      withInitializer (.loop (condition.getD (.literal (.bool true))) (withIncrement body increment))
        initializer := by
  cases initializer <;> cases increment <;> rfl

def Parser.SoundStatement (parser : Parser Stmt) : Prop :=
  ∀ tokens stmt rest, parser.Reads tokens stmt rest →
    ∃ used dangling, tokens = used ++ rest ∧ Statement dangling used stmt ∧
      (dangling = true → Stops [.elseWord] rest)

def Parser.SoundDeclaration (parser : Parser (Option Stmt)) : Prop :=
  ∀ tokens found rest, parser.Reads tokens found rest →
    ∃ used stmt, tokens = used ++ rest ∧ Declaration used stmt ∧ found = some stmt

namespace StmtParser

variable {fuel : Nat} {statement : Parser Stmt} {declaration : Parser (Option Stmt)}
  {tokens rest : List Token} {stmt : Stmt}

theorem whileStatement_sound (sound : statement.SoundStatement) {word : Token}
    (isWord : word.kind = .whileWord)
    (reads : (whileStatement fuel statement).Reads tokens stmt rest) :
    ∃ used dangling, tokens = used ++ rest ∧ Statement dangling (word :: used) stmt ∧
      (dangling = true → Stops [.elseWord] rest) := by
  rw [whileStatement, Parser.reads_bind] at reads
  obtain ⟨opening, middle, readOpening, reads⟩ := reads
  obtain ⟨rfl, isOpening⟩ := Parser.reads_expect.mp readOpening
  rw [Parser.reads_bind] at reads
  obtain ⟨condition, left, readCondition, reads⟩ := reads
  rw [Parser.reads_bind] at reads
  obtain ⟨body, behind, readBody, reads⟩ := reads
  obtain ⟨rfl, rfl⟩ := Parser.reads_pure.mp reads
  obtain ⟨test, closing, rfl, derived, isClosing⟩ := closedBy_sound readCondition
  obtain ⟨used, dangling, rfl, derivedBody, stops⟩ := sound _ _ _ readBody
  exact ⟨opening :: test ++ closing :: used, dangling, by simp,
    .loop isWord isOpening derived isClosing derivedBody, stops⟩

theorem ifStatement_sound (sound : statement.SoundStatement) {word : Token}
    (isWord : word.kind = .ifWord)
    (reads : (ifStatement fuel statement).Reads tokens stmt rest) :
    ∃ used dangling, tokens = used ++ rest ∧ Statement dangling (word :: used) stmt ∧
      (dangling = true → Stops [.elseWord] rest) := by
  rw [ifStatement, Parser.reads_bind] at reads
  obtain ⟨opening, middle, readOpening, reads⟩ := reads
  obtain ⟨rfl, isOpening⟩ := Parser.reads_expect.mp readOpening
  rw [Parser.reads_bind] at reads
  obtain ⟨condition, left, readCondition, reads⟩ := reads
  rw [Parser.reads_bind] at reads
  obtain ⟨yes, behind, readYes, reads⟩ := reads
  obtain ⟨test, closing, rfl, derived, isClosing⟩ := closedBy_sound readCondition
  obtain ⟨used, dangling, rfl, derivedYes, stops⟩ := sound _ _ _ readYes
  rw [Parser.reads_accept?_bind] at reads
  -- The parser looks for an `else` right behind the first branch.
  rcases reads with ⟨noElse, reads⟩ | ⟨otherwise, after, rfl, isElse, reads⟩
  · obtain ⟨rfl, rfl⟩ := Parser.reads_pure.mp reads
    exact ⟨opening :: test ++ closing :: used, true, by simp,
      .ifOnly isWord isOpening derived isClosing derivedYes, fun _ => noElse⟩
  · rw [Parser.reads_bind] at reads
    obtain ⟨no, finish, readNo, reads⟩ := reads
    obtain ⟨rfl, rfl⟩ := Parser.reads_pure.mp reads
    obtain ⟨others, danglingNo, rfl, derivedNo, stopsNo⟩ := sound _ _ _ readNo
    -- A dangling first branch would have taken the `else` for itself.
    cases dangling with
    | true => exact absurd isElse (stops rfl otherwise rfl)
    | false =>
      exact ⟨opening :: test ++ closing :: used ++ otherwise :: others, danglingNo, by simp,
        .ifElse isWord isOpening derived isClosing derivedYes (List.mem_singleton.mp isElse)
          derivedNo, stopsNo⟩

theorem forStatement_sound (sound : statement.SoundStatement) {word : Token}
    (isWord : word.kind = .forWord)
    (reads : (forStatement fuel statement).Reads tokens stmt rest) :
    ∃ used dangling, tokens = used ++ rest ∧ Statement dangling (word :: used) stmt ∧
      (dangling = true → Stops [.elseWord] rest) := by
  -- First the parser is taken apart in the order in which it reads, then each part is derived.
  rw [forStatement, Parser.reads_bind] at reads
  obtain ⟨opening, start, readOpening, reads⟩ := reads
  obtain ⟨rfl, isOpening⟩ := Parser.reads_expect.mp readOpening
  rw [Parser.reads_bind] at reads
  obtain ⟨initializer, middle, readInitializer, reads⟩ := reads
  rw [Parser.reads_bind] at reads
  obtain ⟨condition, left, readCondition, reads⟩ := reads
  rw [Parser.reads_bind] at reads
  obtain ⟨semicolon, behind, readSemicolon, reads⟩ := reads
  obtain ⟨rfl, isSemicolon⟩ := Parser.reads_expect.mp readSemicolon
  rw [Parser.reads_bind] at reads
  obtain ⟨increment, after, readIncrement, reads⟩ := reads
  rw [Parser.reads_bind] at reads
  obtain ⟨closing, last, readClosing, reads⟩ := reads
  obtain ⟨rfl, isClosing⟩ := Parser.reads_expect.mp readClosing
  rw [Parser.reads_bind] at reads
  obtain ⟨body, finish, readBody, reads⟩ := reads
  obtain ⟨rfl, rfl⟩ := Parser.reads_pure.mp reads
  obtain ⟨first, rfl, derivedFirst⟩ := forInitializer_sound _ _ _ readInitializer
  obtain ⟨test, rfl, derivedTest⟩ := optional_sound _ _ _ readCondition
  obtain ⟨step, rfl, derivedStep⟩ := optional_sound _ _ _ readIncrement
  obtain ⟨used, dangling, rfl, derivedBody, stops⟩ := sound _ _ _ readBody
  rw [forLoop_eq]
  exact ⟨opening :: first ++ test ++ semicolon :: step ++ closing :: used, dangling, by simp,
    .forLoop isWord isOpening derivedFirst derivedTest isSemicolon derivedStep isClosing
      derivedBody, stops⟩

theorem printStatement_sound {word : Token} (isWord : word.kind = .printWord)
    (reads : (printStatement fuel).Reads tokens stmt rest) :
    ∃ used, tokens = used ++ rest ∧ Statement false (word :: used) stmt := by
  rw [printStatement, Parser.reads_bind] at reads
  obtain ⟨expr, middle, readInner, reads⟩ := reads
  obtain ⟨rfl, rfl⟩ := Parser.reads_pure.mp reads
  obtain ⟨used, closing, rfl, derived, same⟩ := closedBy_sound readInner
  exact ⟨used ++ [closing], by simp, .print isWord (.intro derived same)⟩

theorem returnStatement_sound {word : Token} (isWord : word.kind = .returnWord)
    (reads : (returnStatement fuel word).Reads tokens stmt rest) :
    ∃ used, tokens = used ++ rest ∧ Statement false (word :: used) stmt := by
  rw [returnStatement, Parser.reads_bind] at reads
  obtain ⟨value, middle, readValue, reads⟩ := reads
  rw [Parser.reads_bind] at reads
  obtain ⟨semicolon, left, readSemicolon, reads⟩ := reads
  obtain ⟨rfl, rfl⟩ := Parser.reads_pure.mp reads
  obtain ⟨rfl, isSemicolon⟩ := Parser.reads_expect.mp readSemicolon
  obtain ⟨used, rfl, derived⟩ := optional_sound _ _ _ readValue
  exact ⟨used ++ [semicolon], by simp, .ret isWord derived isSemicolon⟩

theorem declarations_sound (sound : declaration.SoundDeclaration) {closing : List Kind} :
    ∀ fuel : Nat, (declarations declaration closing fuel).Sound Declarations
  | 0 => fun _ _ _ reads => absurd reads Parser.not_reads_exhausted
  | fuel + 1 => by
    intro tokens stmts rest reads
    rw [Parser.Reads, declarations] at reads
    dsimp only at reads
    split at reads
    · simp only [Parsed.ok.injEq] at reads
      obtain ⟨rfl, rfl, _⟩ := reads
      exact ⟨[], rfl, .none⟩
    · obtain ⟨first, middle, readFirst, reads⟩ := Parsed.bind_eq_ok_nil.mp reads
      obtain ⟨others, left, readOthers, reads⟩ := Parsed.bind_eq_ok_nil.mp reads
      simp only [Parsed.ok.injEq] at reads
      obtain ⟨rfl, rfl, _⟩ := reads
      obtain ⟨used, stmt, rfl, derived, rfl⟩ := sound _ _ _ readFirst
      obtain ⟨more, rfl, derivedMore⟩ := declarations_sound sound fuel _ _ _ readOthers
      exact ⟨used ++ more, by simp, .more derived derivedMore⟩

theorem block_sound (sound : declaration.SoundDeclaration) {body : List Stmt}
    (reads : (block fuel declaration).Reads tokens body rest) :
    ∃ used closing, tokens = used ++ closing :: rest ∧ Declarations used body ∧
      closing.kind = .rightBrace := by
  rw [block, Parser.reads_bind] at reads
  obtain ⟨stmts, middle, readBody, reads⟩ := reads
  rw [Parser.reads_bind] at reads
  obtain ⟨closing, left, readClosing, reads⟩ := reads
  obtain ⟨rfl, rfl⟩ := Parser.reads_pure.mp reads
  obtain ⟨rfl, isClosing⟩ := Parser.reads_expect.mp readClosing
  obtain ⟨used, rfl, derived⟩ := declarations_sound sound fuel _ _ _ readBody
  exact ⟨used, closing, rfl, derived, isClosing⟩

theorem funDecl_sound (sound : declaration.SoundDeclaration) {word : Token}
    (isWord : word.kind = .funWord) (reads : (funDecl fuel declaration).Reads tokens stmt rest) :
    ∃ used, tokens = used ++ rest ∧ Declaration (word :: used) stmt := by
  rw [funDecl, Parser.reads_bind] at reads
  obtain ⟨name, start, readName, reads⟩ := reads
  obtain ⟨rfl, isName⟩ := Parser.reads_expect.mp readName
  rw [Parser.reads_bind] at reads
  obtain ⟨opening, middle, readOpening, reads⟩ := reads
  obtain ⟨rfl, isOpening⟩ := Parser.reads_expect.mp readOpening
  rw [Parser.reads_bind] at reads
  obtain ⟨params, left, readParams, reads⟩ := reads
  rw [Parser.reads_bind] at reads
  obtain ⟨closing, behind, readClosing, reads⟩ := reads
  obtain ⟨rfl, isClosing⟩ := Parser.reads_expect.mp readClosing
  rw [Parser.reads_bind] at reads
  obtain ⟨brace, after, readBrace, reads⟩ := reads
  obtain ⟨rfl, isBrace⟩ := Parser.reads_expect.mp readBrace
  rw [Parser.reads_bind] at reads
  obtain ⟨body, last, readBody, reads⟩ := reads
  obtain ⟨rfl, rfl⟩ := Parser.reads_pure.mp reads
  obtain ⟨inside, rfl, listed⟩ := parameters_sound _ _ _ readParams
  obtain ⟨used, finish, rfl, derived, isFinish⟩ := block_sound sound readBody
  exact ⟨name :: opening :: inside ++ closing :: brace :: used ++ [finish], by simp,
    .function isWord isName isOpening listed isClosing isBrace derived isFinish⟩

theorem statementWith_sound (soundStatement : statement.SoundStatement)
    (soundDeclaration : declaration.SoundDeclaration) :
    Parser.SoundStatement (statementWith fuel statement declaration) := by
  -- Where no word of a statement stands, and at the end of the tokens, an expression is read.
  have fromExpression : Parser.SoundStatement (expressionStatement fuel) := by
    intro tokens stmt rest reads
    obtain ⟨used, expr, rfl, closed, rfl⟩ := expressionStatement_sound reads
    exact ⟨used, false, rfl, .expression closed, nofun⟩
  intro tokens stmt rest reads
  cases tokens with
  | nil => exact fromExpression _ _ _ reads
  | cons token tail =>
    rw [Parser.Reads, statementWith] at reads
    split at reads
    next kind =>
      obtain ⟨used, dangling, rfl, derived⟩ := forStatement_sound soundStatement kind reads
      exact ⟨token :: used, dangling, rfl, derived⟩
    next kind =>
      obtain ⟨used, dangling, rfl, derived⟩ := ifStatement_sound soundStatement kind reads
      exact ⟨token :: used, dangling, rfl, derived⟩
    next kind =>
      obtain ⟨used, rfl, derived⟩ := printStatement_sound kind reads
      exact ⟨token :: used, false, rfl, derived, nofun⟩
    next kind =>
      obtain ⟨used, rfl, derived⟩ := returnStatement_sound kind reads
      exact ⟨token :: used, false, rfl, derived, nofun⟩
    next kind =>
      obtain ⟨used, dangling, rfl, derived⟩ := whileStatement_sound soundStatement kind reads
      exact ⟨token :: used, dangling, rfl, derived⟩
    next kind =>
      obtain ⟨body, readBody, rfl⟩ := Parser.reads_map.mp reads
      obtain ⟨used, closing, rfl, derived, isClosing⟩ := block_sound soundDeclaration readBody
      exact ⟨token :: used ++ [closing], false, by simp, .block kind derived isClosing, nofun⟩
    next => exact fromExpression _ _ _ reads

theorem declarationWith_sound (soundStatement : statement.SoundStatement)
    (soundDeclaration : declaration.SoundDeclaration) :
    Parser.Sound (declarationWith fuel statement declaration) Declaration := by
  have fromStatement : statement.Sound Declaration := by
    intro tokens stmt rest reads
    obtain ⟨used, dangling, rfl, derived, _⟩ := soundStatement _ _ _ reads
    exact ⟨used, rfl, .statement derived⟩
  intro tokens stmt rest reads
  cases tokens with
  | nil => exact fromStatement _ _ _ reads
  | cons token tail =>
    rw [Parser.Reads, declarationWith] at reads
    split at reads
    next kind =>
      obtain ⟨used, rfl, derived⟩ := funDecl_sound soundDeclaration kind reads
      exact ⟨token :: used, rfl, derived⟩
    next kind =>
      obtain ⟨used, rfl, derived⟩ := varDecl_sound kind reads
      exact ⟨token :: used, rfl, .variable derived⟩
    next => exact fromStatement _ _ _ reads

theorem recovering_sound {parser : Parser Stmt} (sound : parser.Sound Declaration) :
    (recovering parser).SoundDeclaration := by
  intro tokens found rest reads
  rw [Parser.Reads, recovering] at reads
  split at reads
  next stmt left errors answer =>
    simp only [Parsed.ok.injEq] at reads
    obtain ⟨rfl, rfl, rfl⟩ := reads
    obtain ⟨used, rfl, derived⟩ := sound _ _ _ answer
    exact ⟨used, stmt, rfl, derived, rfl⟩
  -- The parser went on behind an error, which is still there.
  next => simp at reads
  next => cases reads

mutual

theorem statement_sound : ∀ fuel : Nat, (StmtParser.statement fuel).SoundStatement
  | 0 => fun _ _ _ reads => absurd reads Parser.not_reads_exhausted
  | fuel + 1 => statementWith_sound (statement_sound fuel) (declaration_sound fuel)

theorem declaration_sound : ∀ fuel : Nat, (StmtParser.declaration fuel).SoundDeclaration
  | 0 => fun _ _ _ reads => absurd reads Parser.not_reads_exhausted
  | fuel + 1 =>
    recovering_sound (declarationWith_sound (statement_sound fuel) (declaration_sound fuel))

end

end StmtParser

end Lox.Syntax
