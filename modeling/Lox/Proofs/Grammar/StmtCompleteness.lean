import Lox.Proofs.Grammar.ExprCompleteness
import Lox.Proofs.Grammar.StmtSoundness

/-! Every declaration of the grammar is read without errors.

A statement with less tokens than the fuel is read in full, and so is a
declaration with one token less than that, which a declaration that is a
statement needs for the step from the one to the other.
-/

set_option autoImplicit false

namespace Lox.Syntax

open Grammar
open Token (Kind)

namespace StmtParser

variable {fuel : Nat} {used rest : List Token}

theorem expression_reads {expr : Expr} (derived : Phrase .assignment used expr)
    (short : used.length < fuel) (stops : Stops Level.assignment.extending rest) :
    (ExprParser.expression fuel).Reads (used ++ rest) expr rest := by
  obtain ⟨fuel, rfl⟩ : ∃ less, fuel = less + 1 := ⟨fuel - 1, by omega⟩
  exact ExprParser.expression_complete fuel _ _ _ derived (by omega) stops

theorem closedBy_complete {kind : Kind} {cause : SyntaxError.Cause} {expr : Expr} {closing : Token}
    (derived : Phrase .assignment used expr) (short : used.length < fuel)
    (same : closing.kind = kind) (ends : kind ∉ Level.assignment.extending) :
    (closedBy fuel kind cause).Reads (used ++ closing :: rest) expr rest := by
  have stops : Stops Level.assignment.extending (closing :: rest) := by simpa [same] using ends
  have readInner := expression_reads derived short stops
  rw [closedBy, Parser.reads_bind]
  refine ⟨expr, _, readInner, Parser.reads_bind.mpr ⟨closing, rest, ?_, ?_⟩⟩
  · exact Parser.reads_expect.mpr ⟨rfl, same⟩
  · exact Parser.reads_pure.mpr ⟨rfl, rfl⟩

theorem closed_complete {cause : SyntaxError.Cause} {expr : Expr} (closed : Closed used expr)
    (short : used.length ≤ fuel) :
    (closedBy fuel .semicolon cause).Reads (used ++ rest) expr rest := by
  obtain ⟨derived, isSemicolon⟩ := closed
  simp only [List.length_append, List.length_cons, List.length_nil] at short
  rw [List.append_assoc]
  exact closedBy_complete derived (by omega) isSemicolon (by decide)

theorem expressionStatement_complete {expr : Expr} (closed : Closed used expr)
    (short : used.length ≤ fuel) :
    (expressionStatement fuel).Reads (used ++ rest) (.expression expr) rest := by
  rw [expressionStatement, Parser.reads_bind]
  exact ⟨expr, rest, closed_complete closed short, Parser.reads_pure.mpr ⟨rfl, rfl⟩⟩

theorem optional_complete {kind : Kind} {clause : Option Expr} {closing : Token}
    (derived : Clause used clause) (short : used.length < fuel) (same : closing.kind = kind)
    (ends : kind ∉ Level.assignment.extending ++ Level.assignment.starters) :
    (optional fuel kind).Reads (used ++ closing :: rest) clause (closing :: rest) := by
  simp only [List.mem_append, not_or] at ends
  rw [optional, Parser.reads_bind]
  cases derived with
  | absent =>
    exact ⟨true, _, Parser.reads_nextIs.mpr ⟨by simp [same], rfl⟩, Parser.reads_pure.mpr ⟨rfl, rfl⟩⟩
  | present derived =>
    obtain ⟨first, others, rfl, isFirst⟩ := derived.head
    refine ⟨false, _, Parser.reads_nextIs.mpr ⟨?_, rfl⟩, ?_⟩
    · have different : first.kind ≠ kind := fun clash => ends.2 (clash ▸ isFirst)
      simp [different]
    · exact Parser.reads_map.mpr
        ⟨_, expression_reads derived short (by simpa [same] using ends.1), rfl⟩

theorem varDecl_complete {word : Token} {stmt : Stmt} (derived : Variable (word :: used) stmt)
    (short : used.length ≤ fuel) : (varDecl fuel).Reads (used ++ rest) stmt rest := by
  rw [varDecl, Parser.reads_bind]
  cases derived with
  | @bare _ name semicolon _ isName isSemicolon =>
    refine ⟨name, semicolon :: rest, Parser.reads_expect.mpr ⟨rfl, isName⟩, ?_⟩
    refine Parser.reads_bind.mpr ⟨none, semicolon :: rest, ?_, ?_⟩
    · rw [Parser.reads_accept?_bind]
      exact .inl ⟨by simp [isSemicolon], Parser.reads_pure.mpr ⟨rfl, rfl⟩⟩
    · exact Parser.reads_bind.mpr ⟨_, rest, Parser.reads_expect.mpr ⟨rfl, isSemicolon⟩,
        Parser.reads_pure.mpr ⟨rfl, rfl⟩⟩
  | @initialized _ name equals tokens value _ isName isEqual closed =>
    obtain @⟨semicolon, tokens, _, derived, isSemicolon⟩ := closed
    simp only [List.length_append, List.length_cons, List.length_nil] at short
    refine ⟨name, _, Parser.reads_expect.mpr ⟨rfl, isName⟩, ?_⟩
    refine Parser.reads_bind.mpr ⟨some value, semicolon :: rest, ?_, ?_⟩
    · rw [Parser.reads_accept?_bind]
      refine .inr ⟨equals, _, rfl, List.mem_singleton.mpr isEqual, ?_⟩
      rw [List.append_eq, List.append_assoc]
      exact Parser.reads_map.mpr ⟨value, expression_reads derived (by omega)
        (by simp [isSemicolon, Level.extending]), rfl⟩
    · exact Parser.reads_bind.mpr ⟨_, rest, Parser.reads_expect.mpr ⟨rfl, isSemicolon⟩,
        Parser.reads_pure.mpr ⟨rfl, rfl⟩⟩

theorem forInitializer_complete {initializer : Option Stmt} (derived : Initializer used initializer)
    (short : used.length ≤ fuel) :
    (forInitializer fuel).Reads (used ++ rest) initializer rest := by
  rw [forInitializer, Parser.reads_accept?_bind]
  cases derived with
  | absent isSemicolon =>
    refine .inr ⟨_, rest, rfl, by simp [isSemicolon], ?_⟩
    simp [isSemicolon]
  | «variable» derived =>
    obtain ⟨word, tail, rfl, isWord⟩ := derived.head
    refine .inr ⟨word, tail ++ rest, rfl, by simp [isWord], ?_⟩
    have different : word.kind ≠ .semicolon := by simp [isWord]
    simp only [different, if_false]
    exact Parser.reads_map.mpr
      ⟨_, varDecl_complete derived (by simp at short; omega), rfl⟩
  | expression closed =>
    have readWhole : (expressionStatement fuel).Reads (used ++ rest) _ rest :=
      expressionStatement_complete closed short
    obtain ⟨first, tail, rfl, isFirst⟩ := closed.head
    refine .inl ⟨?_, Parser.reads_map.mpr ⟨_, readWhole, rfl⟩⟩
    rw [List.cons_append, stops_cons]
    intro clash
    simp only [List.mem_cons, List.not_mem_nil, or_false] at clash
    rcases clash with same | same <;> simp [same, Level.starters] at isFirst

theorem parameters_complete {params : List Token} {closing : Token} (derived : Listed Name used params)
    (short : used.length ≤ fuel) (isClosing : closing.kind = .rightParen) :
    (parameters fuel).Reads (used ++ closing :: rest) params (closing :: rest) := by
  have name : (Parser.expect .identifier .parameterName).Complete used.length [] Name := by
    rintro _ name rest ⟨isName⟩ _ _
    exact Parser.reads_expect.mpr ⟨rfl, isName⟩
  rw [parameters, Parser.reads_bind]
  cases derived with
  | none =>
    exact ⟨true, _, Parser.reads_nextIs.mpr ⟨by simp [isClosing], rfl⟩,
      Parser.reads_pure.mpr ⟨rfl, rfl⟩⟩
  | some names few =>
    -- A list that is not empty begins with a name, so the parser does not take it for absent.
    have head : ∃ first tail, used = first :: tail ∧ first.kind ∈ [Kind.identifier] := by
      apply names.head
      rintro _ _ ⟨isName⟩
      exact ⟨_, [], rfl, List.mem_singleton.mpr isName⟩
    have positive : ∀ {tokens : List Token} {name : Token}, Name tokens name → 0 < tokens.length := by
      rintro _ _ ⟨_⟩
      exact Nat.one_pos
    refine ⟨false, _, Parser.reads_nextIs.mpr ⟨?_, rfl⟩, ?_⟩
    · obtain ⟨first, tail, rfl, isFirst⟩ := head
      simp [List.mem_singleton.mp isFirst]
    · exact name.separated (by simp) positive names (Nat.le_refl _) short few
        (by simp [isClosing])

end StmtParser

def Parser.CompleteStatement (parser : Parser Stmt) (fuel : Nat) : Prop :=
  ∀ used dangling stmt rest, Statement dangling used stmt → used.length < fuel →
    (dangling = true → Stops [.elseWord] rest) → parser.Reads (used ++ rest) stmt rest

def Parser.CompleteDeclaration (parser : Parser (Option Stmt)) (fuel : Nat) : Prop :=
  ∀ used stmt rest, Declaration used stmt → used.length + 1 < fuel → Stops [.elseWord] rest →
    parser.Reads (used ++ rest) (some stmt) rest

namespace StmtParser

variable {fuel : Nat} {statement : Parser Stmt} {declaration : Parser (Option Stmt)}
  {used rest : List Token} {stmt : Stmt}

theorem stops_else_append {stmts : List Stmt} (derived : Declarations used stmts)
    (stops : Stops [.elseWord] rest) : Stops [.elseWord] (used ++ rest) := by
  cases derived with
  | none => exact stops
  | more first =>
    obtain ⟨token, tail, rfl, isFirst⟩ := first.head
    simp only [List.cons_append, stops_cons]
    intro clash
    rw [List.mem_singleton.mp clash] at isFirst
    exact absurd isFirst (by decide)

theorem declarations_append (complete : declaration.CompleteDeclaration fuel)
    {closing : List Kind} (ends : ∀ kind ∈ closing, kind ∉ Declaration.starters)
    (stops : Stops [.elseWord] rest) {stmts : List Stmt} (derived : Declarations used stmts)
    (short : used.length + 1 < fuel) (steps : Nat) :
    declarations declaration closing (stmts.length + steps) (used ++ rest) =
      (declarations declaration closing steps rest).bind fun others left =>
        .ok (stmts ++ others) left [] := by
  induction stmts generalizing used with
  | nil =>
    cases derived
    rw [List.length_nil, Nat.zero_add, List.nil_append]
    cases declarations declaration closing steps rest <;> simp [Parsed.bind, Parsed.after]
  | cons stmt stmts ih =>
    cases derived with
    | @more tokens others _ _ first more =>
      simp only [List.length_append] at short
      -- A declaration may dangle, but what follows it begins with no `else`.
      have readFirst :=
        complete _ _ (others ++ rest) first (by omega) (stops_else_append more stops)
      obtain ⟨token, tail, rfl, isFirst⟩ := first.head
      have readMore := ih more (by omega)
      -- What closes the declarations begins none of them.
      have goesOn : token.kind ∉ closing := fun clash => ends _ clash isFirst
      have count : (stmt :: stmts).length + steps = stmts.length + steps + 1 := by
        rw [List.length_cons]
        omega
      rw [Parser.Reads, List.cons_append] at readFirst
      rw [count, List.append_assoc, List.cons_append]
      simp only [declarations, List.head?_cons, Option.all_some, goesOn, decide_false,
        Bool.false_eq_true, if_false, readFirst, Parsed.ok_bind, readMore]
      cases declarations declaration closing steps rest <;> simp [Parsed.bind, Parsed.after]

/-- Declarations are read up to a token that closes them, or to the end. -/
theorem declarations_complete (complete : declaration.CompleteDeclaration fuel)
    {closing : List Kind} (ends : ∀ kind ∈ closing, kind ∉ Declaration.starters)
    (closes : ∀ token ∈ rest.head?, token.kind ∈ closing) (stops : Stops [.elseWord] rest)
    {stmts : List Stmt} (derived : Declarations used stmts) (short : used.length + 1 < fuel)
    {steps : Nat} (enough : used.length < steps) :
    (declarations declaration closing steps).Reads (used ++ rest) stmts rest := by
  obtain ⟨more, rfl⟩ : ∃ more, steps = stmts.length + (more + 1) :=
    ⟨steps - stmts.length - 1, by have := derived.length_le; omega⟩
  have atEnd : rest.head?.all (·.kind ∈ closing) = true := by
    cases rest with
    | nil => rfl
    | cons token tail => simpa using closes token rfl
  rw [Parser.Reads, declarations_append complete ends stops derived short]
  simp [declarations, atEnd, Parsed.bind, Parsed.after]

theorem block_complete (complete : declaration.CompleteDeclaration fuel) {body : List Stmt}
    {closing : Token} (derived : Declarations used body) (short : used.length + 1 < fuel)
    (isClosing : closing.kind = .rightBrace) :
    (block fuel declaration).Reads (used ++ closing :: rest) body rest := by
  have readBody : (declarations declaration [.rightBrace] fuel).Reads (used ++ closing :: rest)
      body (closing :: rest) :=
    declarations_complete complete (by decide) (by simp [isClosing]) (by simp [isClosing]) derived
      short (by omega)
  rw [block, Parser.reads_bind]
  refine ⟨body, _, readBody, Parser.reads_bind.mpr ⟨closing, rest, ?_, ?_⟩⟩
  · exact Parser.reads_expect.mpr ⟨rfl, isClosing⟩
  · exact Parser.reads_pure.mpr ⟨rfl, rfl⟩

theorem whileStatement_complete (complete : statement.CompleteStatement fuel)
    {opening closing : Token} {test : List Token} {condition : Expr} {dangling : Bool}
    (isOpening : opening.kind = .leftParen) (derived : Phrase .assignment test condition)
    (isClosing : closing.kind = .rightParen) (body : Statement dangling used stmt)
    (short : test.length + used.length < fuel) (stops : dangling = true → Stops [.elseWord] rest) :
    (whileStatement fuel statement).Reads (opening :: (test ++ closing :: (used ++ rest)))
      (.loop condition stmt) rest := by
  have readTest : (closedBy fuel .rightParen .parenAfterCondition).Reads
      (test ++ closing :: (used ++ rest)) condition (used ++ rest) :=
    closedBy_complete derived (by omega) isClosing (by decide)
  have readBody := complete _ _ _ rest body (by omega) stops
  rw [whileStatement, Parser.reads_bind]
  refine ⟨opening, _, Parser.reads_expect.mpr ⟨rfl, isOpening⟩, ?_⟩
  refine Parser.reads_bind.mpr ⟨condition, _, readTest, ?_⟩
  exact Parser.reads_bind.mpr ⟨stmt, rest, readBody, Parser.reads_pure.mpr ⟨rfl, rfl⟩⟩

theorem ifStatement_complete_only (complete : statement.CompleteStatement fuel)
    {opening closing : Token} {test : List Token} {condition : Expr} {dangling : Bool}
    (isOpening : opening.kind = .leftParen) (derived : Phrase .assignment test condition)
    (isClosing : closing.kind = .rightParen) (yes : Statement dangling used stmt)
    (short : test.length + used.length < fuel) (stops : Stops [.elseWord] rest) :
    (ifStatement fuel statement).Reads (opening :: (test ++ closing :: (used ++ rest)))
      (.conditional condition stmt none) rest := by
  have readTest : (closedBy fuel .rightParen .parenAfterIfCondition).Reads
      (test ++ closing :: (used ++ rest)) condition (used ++ rest) :=
    closedBy_complete derived (by omega) isClosing (by decide)
  have readYes := complete _ _ _ rest yes (by omega) fun _ => stops
  rw [ifStatement, Parser.reads_bind]
  refine ⟨opening, _, Parser.reads_expect.mpr ⟨rfl, isOpening⟩, ?_⟩
  refine Parser.reads_bind.mpr ⟨condition, _, readTest, ?_⟩
  refine Parser.reads_bind.mpr ⟨stmt, rest, readYes, ?_⟩
  rw [Parser.reads_accept?_bind]
  exact .inl ⟨stops, Parser.reads_pure.mpr ⟨rfl, rfl⟩⟩

theorem ifStatement_complete_else (complete : statement.CompleteStatement fuel)
    {opening closing otherwise : Token} {test others : List Token} {condition : Expr}
    {dangling : Bool} {no : Stmt} (isOpening : opening.kind = .leftParen)
    (derived : Phrase .assignment test condition) (isClosing : closing.kind = .rightParen)
    (yes : Statement false used stmt) (isElse : otherwise.kind = .elseWord)
    (other : Statement dangling others no)
    (short : test.length + used.length + others.length < fuel)
    (stops : dangling = true → Stops [.elseWord] rest) :
    (ifStatement fuel statement).Reads
      (opening :: (test ++ closing :: (used ++ otherwise :: (others ++ rest))))
      (.conditional condition stmt (some no)) rest := by
  have readTest : (closedBy fuel .rightParen .parenAfterIfCondition).Reads
      (test ++ closing :: (used ++ otherwise :: (others ++ rest))) condition
      (used ++ otherwise :: (others ++ rest)) :=
    closedBy_complete derived (by omega) isClosing (by decide)
  -- The first branch does not dangle, so it leaves the `else` alone.
  have readYes := complete _ _ _ (otherwise :: (others ++ rest)) yes (by omega) nofun
  have readNo := complete _ _ _ rest other (by omega) stops
  rw [ifStatement, Parser.reads_bind]
  refine ⟨opening, _, Parser.reads_expect.mpr ⟨rfl, isOpening⟩, ?_⟩
  refine Parser.reads_bind.mpr ⟨condition, _, readTest, ?_⟩
  refine Parser.reads_bind.mpr ⟨stmt, _, readYes, ?_⟩
  rw [Parser.reads_accept?_bind]
  refine .inr ⟨otherwise, _, rfl, List.mem_singleton.mpr isElse, ?_⟩
  exact Parser.reads_bind.mpr ⟨no, rest, readNo, Parser.reads_pure.mpr ⟨rfl, rfl⟩⟩

theorem forStatement_complete (complete : statement.CompleteStatement fuel)
    {opening semicolon closing : Token} {first test step : List Token}
    {initializer : Option Stmt} {condition increment : Option Expr} {dangling : Bool}
    (isOpening : opening.kind = .leftParen) (start : Initializer first initializer)
    (derivedTest : Clause test condition) (isSemicolon : semicolon.kind = .semicolon)
    (derivedStep : Clause step increment) (isClosing : closing.kind = .rightParen)
    (body : Statement dangling used stmt)
    (short : first.length + test.length + step.length + used.length < fuel)
    (stops : dangling = true → Stops [.elseWord] rest) :
    (forStatement fuel statement).Reads
      (opening :: (first ++ (test ++ semicolon :: (step ++ closing :: (used ++ rest)))))
      (forLoop initializer condition increment stmt) rest := by
  -- The three clauses are read one behind the other, each up to its own token.
  have readFirst : (forInitializer fuel).Reads
      (first ++ (test ++ semicolon :: (step ++ closing :: (used ++ rest)))) initializer
      (test ++ semicolon :: (step ++ closing :: (used ++ rest))) :=
    forInitializer_complete start (by omega)
  have readTest : (optional fuel .semicolon).Reads
      (test ++ semicolon :: (step ++ closing :: (used ++ rest))) condition
      (semicolon :: (step ++ closing :: (used ++ rest))) :=
    optional_complete derivedTest (by omega) isSemicolon (by decide)
  have readStep : (optional fuel .rightParen).Reads (step ++ closing :: (used ++ rest)) increment
      (closing :: (used ++ rest)) :=
    optional_complete derivedStep (by omega) isClosing (by decide)
  have readBody := complete _ _ _ rest body (by omega) stops
  rw [forStatement, Parser.reads_bind]
  refine ⟨opening, _, Parser.reads_expect.mpr ⟨rfl, isOpening⟩, ?_⟩
  refine Parser.reads_bind.mpr ⟨initializer, _, readFirst, ?_⟩
  refine Parser.reads_bind.mpr ⟨condition, _, readTest, ?_⟩
  refine Parser.reads_bind.mpr ⟨semicolon, _, Parser.reads_expect.mpr ⟨rfl, isSemicolon⟩, ?_⟩
  refine Parser.reads_bind.mpr ⟨increment, _, readStep, ?_⟩
  refine Parser.reads_bind.mpr ⟨closing, _, Parser.reads_expect.mpr ⟨rfl, isClosing⟩, ?_⟩
  exact Parser.reads_bind.mpr ⟨stmt, rest, readBody, Parser.reads_pure.mpr ⟨rfl, rfl⟩⟩

theorem printStatement_complete {expr : Expr} (closed : Closed used expr)
    (short : used.length ≤ fuel) : (printStatement fuel).Reads (used ++ rest) (.print expr) rest := by
  rw [printStatement, Parser.reads_bind]
  exact ⟨expr, rest, closed_complete closed short, Parser.reads_pure.mpr ⟨rfl, rfl⟩⟩

theorem returnStatement_complete {word semicolon : Token} {value : Option Expr}
    (derived : Clause used value) (isSemicolon : semicolon.kind = .semicolon)
    (short : used.length < fuel) :
    (returnStatement fuel word).Reads (used ++ semicolon :: rest) (.ret word value) rest := by
  rw [returnStatement, Parser.reads_bind]
  refine ⟨value, _, optional_complete derived short isSemicolon (by decide), ?_⟩
  exact Parser.reads_bind.mpr ⟨semicolon, rest, Parser.reads_expect.mpr ⟨rfl, isSemicolon⟩,
    Parser.reads_pure.mpr ⟨rfl, rfl⟩⟩

theorem funDecl_complete (complete : declaration.CompleteDeclaration fuel)
    {name opening closing start finish : Token} {inside params : List Token} {body : List Stmt}
    (isName : name.kind = .identifier) (isOpening : opening.kind = .leftParen)
    (listed : Listed Name inside params) (isClosing : closing.kind = .rightParen)
    (isStart : start.kind = .leftBrace) (derived : Declarations used body)
    (isFinish : finish.kind = .rightBrace) (short : inside.length + used.length + 1 < fuel) :
    (funDecl fuel declaration).Reads
      (name :: opening :: (inside ++ closing :: start :: (used ++ finish :: rest)))
      (.funDecl name params body) rest := by
  have readParams : (parameters fuel).Reads
      (inside ++ closing :: start :: (used ++ finish :: rest)) params
      (closing :: start :: (used ++ finish :: rest)) :=
    parameters_complete listed (by omega) isClosing
  have readBody : (block fuel declaration).Reads (used ++ finish :: rest) body rest :=
    block_complete complete derived (by omega) isFinish
  rw [funDecl, Parser.reads_bind]
  refine ⟨name, _, Parser.reads_expect.mpr ⟨rfl, isName⟩, ?_⟩
  refine Parser.reads_bind.mpr ⟨opening, _, Parser.reads_expect.mpr ⟨rfl, isOpening⟩, ?_⟩
  refine Parser.reads_bind.mpr ⟨params, _, readParams, ?_⟩
  refine Parser.reads_bind.mpr ⟨closing, _, Parser.reads_expect.mpr ⟨rfl, isClosing⟩, ?_⟩
  refine Parser.reads_bind.mpr ⟨start, _, Parser.reads_expect.mpr ⟨rfl, isStart⟩, ?_⟩
  exact Parser.reads_bind.mpr ⟨body, rest, readBody, Parser.reads_pure.mpr ⟨rfl, rfl⟩⟩

/-- A statement that begins like an expression is an expression statement. -/
theorem statementWith_eq {token : Token} (isFirst : token.kind ∈ Level.assignment.starters) :
    statementWith fuel statement declaration (token :: rest) =
      expressionStatement fuel (token :: rest) := by
  rw [statementWith]
  split <;> simp_all [Level.starters]

theorem statementWith_complete (completeStatement : statement.CompleteStatement fuel)
    (completeDeclaration : declaration.CompleteDeclaration fuel) :
    Parser.CompleteStatement (statementWith fuel statement declaration) (fuel + 1) := by
  intro used dangling stmt rest derived short stops
  cases derived with
  | expression closed =>
    have reads : (expressionStatement fuel).Reads (used ++ rest) _ rest :=
      expressionStatement_complete closed (by omega)
    -- An expression begins with no word of a statement, so the last alternative is taken.
    obtain ⟨first, tail, rfl, isFirst⟩ := closed.head
    exact (statementWith_eq isFirst).trans reads
  | print isWord closed =>
    simp only [List.length_cons] at short
    simp only [Parser.Reads, List.cons_append, statementWith, isWord]
    exact printStatement_complete closed (by omega)
  | ret isWord derived isSemicolon =>
    simp only [List.cons_append, List.length_cons, List.length_append, List.length_nil] at short
    simp only [Parser.Reads, List.cons_append, List.append_assoc, List.nil_append, statementWith,
      isWord]
    exact returnStatement_complete derived isSemicolon (by omega)
  -- Inside a block a closing brace ends the declarations, whatever else stands behind.
  | block isOpening derived isClosing =>
    simp only [List.cons_append, List.length_cons, List.length_append, List.length_nil] at short
    simp only [Parser.Reads, List.cons_append, List.append_assoc, List.nil_append, statementWith,
      isOpening]
    exact Parser.reads_map.mpr
      ⟨_, block_complete completeDeclaration derived (by omega) isClosing, rfl⟩
  | loop isWord isOpening derived isClosing body =>
    simp only [List.cons_append, List.length_cons, List.length_append] at short
    simp only [Parser.Reads, List.cons_append, List.append_assoc, statementWith, isWord]
    exact whileStatement_complete completeStatement isOpening derived isClosing body (by omega)
      stops
  | forLoop isWord isOpening start test isSemicolon step isClosing body =>
    simp only [List.cons_append, List.length_cons, List.length_append] at short
    simp only [Parser.Reads, List.cons_append, List.append_assoc, statementWith, isWord,
      ← forLoop_eq]
    exact forStatement_complete completeStatement isOpening start test isSemicolon step isClosing
      body (by omega) stops
  | ifOnly isWord isOpening derived isClosing yes =>
    simp only [List.cons_append, List.length_cons, List.length_append] at short
    simp only [Parser.Reads, List.cons_append, List.append_assoc, statementWith, isWord]
    -- Without its `else`, nothing behind the statement may be taken for one.
    exact ifStatement_complete_only completeStatement isOpening derived isClosing yes (by omega)
      (stops rfl)
  | ifElse isWord isOpening derived isClosing yes isElse no =>
    simp only [List.cons_append, List.length_cons, List.length_append] at short
    simp only [Parser.Reads, List.cons_append, List.append_assoc, statementWith, isWord]
    exact ifStatement_complete_else completeStatement isOpening derived isClosing yes isElse no
      (by omega) stops

/-- A declaration that begins like a statement is a statement. -/
theorem declarationWith_eq {token : Token} (isFirst : token.kind ∈ Statement.starters) :
    declarationWith fuel statement declaration (token :: rest) = statement (token :: rest) := by
  rw [declarationWith]
  split <;> simp_all [Statement.starters, Level.starters]

theorem declarationWith_complete (completeStatement : statement.CompleteStatement fuel)
    (completeDeclaration : declaration.CompleteDeclaration fuel) :
    Parser.CompleteDeclaration (recovering (declarationWith fuel statement declaration))
      (fuel + 1) := by
  intro used stmt rest derived short stops
  have reads : Parser.Reads (declarationWith fuel statement declaration) (used ++ rest) stmt rest := by
    cases derived with
    | function isWord isName isOpening listed isClosing isStart body isFinish =>
      simp only [List.cons_append, List.length_cons, List.length_append, List.length_nil] at short
      simp only [Parser.Reads, List.cons_append, List.append_assoc, List.nil_append,
        declarationWith, isWord]
      exact funDecl_complete completeDeclaration isName isOpening listed isClosing isStart body
        isFinish (by omega)
    | «variable» derived =>
      obtain ⟨word, tail, rfl, isWord⟩ := derived.head
      simp only [List.length_cons] at short
      simp only [Parser.Reads, List.cons_append, declarationWith, isWord]
      exact varDecl_complete derived (by omega)
    | statement derived =>
      have readWhole := completeStatement _ _ _ rest derived (by omega) fun _ => stops
      obtain ⟨first, tail, rfl, isFirst⟩ := derived.head
      exact (declarationWith_eq isFirst).trans readWhole
  rw [Parser.Reads] at reads
  simp [Parser.Reads, recovering, reads]

mutual

theorem statement_complete : ∀ fuel : Nat, (StmtParser.statement fuel).CompleteStatement fuel
  | 0 => fun _ _ _ _ _ short => absurd short (Nat.not_lt_zero _)
  | fuel + 1 => statementWith_complete (statement_complete fuel) (declaration_complete fuel)

theorem declaration_complete : ∀ fuel : Nat, (StmtParser.declaration fuel).CompleteDeclaration fuel
  | 0 => fun _ _ _ _ short => absurd short (Nat.not_lt_zero _)
  | fuel + 1 => declarationWith_complete (statement_complete fuel) (declaration_complete fuel)

end

end StmtParser

end Lox.Syntax
