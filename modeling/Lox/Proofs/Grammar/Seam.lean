import Lox.Proofs.Grammar.Juxtaposed
import Lox.Proofs.Grammar.Stopping

/-! Statements that lack their last semicolon.

Behind such a statement stands the next declaration. If that is an expression that can go on
with the last one of the statement, or can be the value of a bare `return`, then both are one
statement. Otherwise the reading stops in front of the first token of the declaration,
however deep in the statement it is.
-/

set_option autoImplicit false

namespace Lox

open Syntax Grammar
open Token (Kind)

namespace Grammar

theorem Declaration.closed_of_head {first : Token} {tail : List Token} {stmt : Stmt}
    (derived : Declaration (first :: tail) stmt) (isFirst : first.kind ∈ Level.assignment.starters) :
    ∃ expr, Closed (first :: tail) expr := by
  generalize same : first :: tail = tokens at derived
  cases derived with
  | function isWord =>
    cases same
    simp [isWord, Level.starters] at isFirst
  | «variable» derived =>
    obtain ⟨word, rest, rfl, isWord⟩ := derived.head
    cases same
    simp [isWord, Level.starters] at isFirst
  | statement derived =>
    cases derived with
    | expression closed => exact ⟨_, closed⟩
    | print isWord | ret isWord | block isWord | loop isWord | forLoop isWord | ifOnly isWord
    | ifElse isWord =>
      cases same
      simp [isWord, Level.starters] at isFirst

section
variable {next : List Token} {declared : Stmt}

theorem Declaration.stops (derived : Declaration next declared) {kinds : List Kind}
    (apart : ∀ kind ∈ kinds, kind ∉ Declaration.starters) (others : List Token) :
    Stops kinds (next ++ others) := by
  obtain ⟨first, tail, rfl, isFirst⟩ := derived.head
  exact stops_cons.mpr fun member => apart _ member isFirst

/-- A declaration behind an expression goes on with it, or neither goes on with it nor ends it. -/
theorem Phrase.joins_or_stops {used : List Token} {expr : Expr}
    (derived : Phrase .assignment used expr) (behind : Declaration next declared) :
    (∃ tokens semicolon whole, next = tokens ++ [semicolon] ∧ semicolon.kind = .semicolon ∧
        Phrase .assignment (used ++ tokens) whole) ∨
      ∀ others, Stops (.semicolon :: Level.assignment.extending) (next ++ others) := by
  have noSemicolon : ∀ others, Stops [.semicolon] (next ++ others) := behind.stops (by decide)
  obtain ⟨first, tail, rfl, isFirst⟩ := behind.head
  by_cases isExtending : first.kind ∈ Level.assignment.extending
  · have isStarter : first.kind ∈ Level.assignment.starters := by
      cases kind : first.kind <;>
        simp_all [Declaration.starters, Statement.starters, Level.extending, Level.starters]
    obtain ⟨value, closed⟩ := behind.closed_of_head isStarter
    generalize same : first :: tail = next at closed
    obtain @⟨semicolon, tokens, _, second, isSemicolon⟩ := closed
    obtain ⟨begin, others, rfl, _⟩ := second.head
    cases same
    obtain ⟨whole, joined⟩ := derived.joins second (by simpa using isExtending)
    exact .inl ⟨_, semicolon, whole, rfl, isSemicolon, joined⟩
  · exact .inr fun others => (noSemicolon others).append (stops_cons.mpr isExtending)

theorem Declaration.value_or_stops (derived : Declaration next declared) :
    (∃ expr, Closed next expr) ∨
      ∀ others, Stops (.semicolon :: Level.assignment.starters) (next ++ others) := by
  have noSemicolon : ∀ others, Stops [.semicolon] (next ++ others) := derived.stops (by decide)
  obtain ⟨first, tail, rfl, _⟩ := derived.head
  by_cases isStarter : first.kind ∈ Level.assignment.starters
  · exact .inl (derived.closed_of_head isStarter)
  · exact .inr fun others => (noSemicolon others).append (stops_cons.mpr isStarter)

end

/-- A statement that lacks its semicolon is one with the tokens behind it, or its reading stops
in front of them. -/
def Seam (dangling : Bool) (cut next : List Token) : Prop :=
  (∃ whole, Statement dangling (cut ++ next) whole) ∨
    ∃ cause, ∀ fuel others, cut.length + 1 < fuel →
      (StmtParser.statement fuel).Halts (cut ++ (next ++ others)) (next ++ others) cause

theorem eq_append_of_last (before : List Token) {inner tokens : List Token} {last : Token}
    (some : inner ≠ [])
    (same : before ++ inner = tokens ++ [last]) :
    ∃ init, inner = init ++ [last] ∧ tokens = before ++ init := by
  obtain ⟨init, final, rfl⟩ := List.eq_nil_or_concat inner |>.resolve_left some
  rw [List.concat_eq_append, ← List.append_assoc] at same
  obtain ⟨rfl, same⟩ := List.append_inj' same rfl
  exact ⟨init, by simpa using same, rfl⟩

namespace Seam

theorem of_halts {dangling : Bool} {cut next : List Token} (cause : SyntaxError.Cause)
    (halts : ∀ fuel others, cut.length < fuel →
      (StmtParser.statementWith fuel (StmtParser.statement fuel) (StmtParser.declaration fuel)).Halts
        (cut ++ (next ++ others)) (next ++ others) cause) : Seam dangling cut next := by
  refine .inr ⟨cause, fun fuel others enough => ?_⟩
  obtain ⟨fuel, rfl⟩ : ∃ less, fuel = less + 1 := ⟨fuel - 1, by omega⟩
  exact halts fuel others (by omega)

section
variable {word opening closing : Token} {test cut next : List Token} {condition : Expr}
  {dangling : Bool}

theorem loop (isWord : word.kind = .whileWord) (isOpening : opening.kind = .leftParen)
    (derived : Phrase .assignment test condition) (isClosing : closing.kind = .rightParen)
    (seam : Seam dangling cut next) :
    Seam dangling (word :: opening :: test ++ [closing] ++ cut) next := by
  rcases seam with ⟨whole, joined⟩ | ⟨cause, halts⟩
  · exact .inl ⟨_, by simpa using Statement.loop isWord isOpening derived isClosing joined⟩
  · refine of_halts cause fun fuel others enough => ?_
    simp only [List.cons_append, List.length_cons, List.length_append] at enough
    simp only [Parser.Halts, List.cons_append, List.append_assoc, List.nil_append,
      StmtParser.statementWith, isWord]
    exact StmtParser.whileStatement_halts isOpening derived isClosing (by omega)
      (halts fuel others (by omega))

theorem forLoop {semicolon : Token} {first step : List Token} {initializer : Option Stmt}
    {condition increment : Option Expr} (isWord : word.kind = .forWord)
    (isOpening : opening.kind = .leftParen) (start : Initializer first initializer)
    (derivedTest : Clause test condition) (isSemicolon : semicolon.kind = .semicolon)
    (derivedStep : Clause step increment) (isClosing : closing.kind = .rightParen)
    (seam : Seam dangling cut next) :
    Seam dangling (word :: opening :: first ++ test ++ semicolon :: step ++ [closing] ++ cut)
      next := by
  rcases seam with ⟨whole, joined⟩ | ⟨cause, halts⟩
  · have whole := Statement.forLoop isWord isOpening start derivedTest isSemicolon derivedStep
      isClosing joined
    exact .inl ⟨_, by simpa using whole⟩
  · refine of_halts cause fun fuel others enough => ?_
    simp only [List.cons_append, List.length_cons, List.length_append] at enough
    simp only [Parser.Halts, List.cons_append, List.append_assoc, List.nil_append,
      StmtParser.statementWith, isWord]
    exact StmtParser.forStatement_halts isOpening start derivedTest isSemicolon derivedStep isClosing
      (by omega) (halts fuel others (by omega))

theorem ifOnly (isWord : word.kind = .ifWord) (isOpening : opening.kind = .leftParen)
    (derived : Phrase .assignment test condition) (isClosing : closing.kind = .rightParen)
    (seam : Seam dangling cut next) :
    Seam true (word :: opening :: test ++ [closing] ++ cut) next := by
  rcases seam with ⟨whole, joined⟩ | ⟨cause, halts⟩
  · exact .inl ⟨_, by simpa using Statement.ifOnly isWord isOpening derived isClosing joined⟩
  · refine of_halts cause fun fuel others enough => ?_
    simp only [List.cons_append, List.length_cons, List.length_append] at enough
    simp only [Parser.Halts, List.cons_append, List.append_assoc, List.nil_append,
      StmtParser.statementWith, isWord]
    exact StmtParser.ifStatement_halts isOpening derived isClosing (by omega)
      (halts fuel others (by omega))

theorem ifElse {otherwise : Token} {tokens : List Token} {yes : Stmt} (isWord : word.kind = .ifWord)
    (isOpening : opening.kind = .leftParen) (derived : Phrase .assignment test condition)
    (isClosing : closing.kind = .rightParen) (first : Statement false tokens yes)
    (isElse : otherwise.kind = .elseWord) (seam : Seam dangling cut next) :
    Seam dangling (word :: opening :: test ++ closing :: tokens ++ [otherwise] ++ cut) next := by
  rcases seam with ⟨whole, joined⟩ | ⟨cause, halts⟩
  · have whole := Statement.ifElse isWord isOpening derived isClosing first isElse joined
    exact .inl ⟨_, by simpa using whole⟩
  · refine of_halts cause fun fuel others enough => ?_
    simp only [List.cons_append, List.length_cons, List.length_append] at enough
    simp only [Parser.Halts, List.cons_append, List.append_assoc, List.nil_append,
      StmtParser.statementWith, isWord]
    exact StmtParser.ifStatement_halts_else (StmtParser.statement_complete fuel) isOpening derived
      isClosing first isElse (by omega) (halts fuel others (by omega))

end

section
variable {next : List Token} {declared : Stmt}

theorem expression {used : List Token} {expr : Expr} (derived : Phrase .assignment used expr)
    (behind : Declaration next declared) : Seam false used next := by
  rcases derived.joins_or_stops behind with ⟨tokens, semicolon, whole, rfl, isSemicolon, joined⟩ | stops
  · exact .inl ⟨_, by simpa using Statement.expression (.intro joined isSemicolon)⟩
  · refine of_halts .semicolonAfterExpression fun fuel others enough => ?_
    have halts := StmtParser.expressionStatement_halts derived enough (stops others)
    obtain ⟨first, tail, rfl, isFirst⟩ := derived.head
    exact (StmtParser.statementWith_eq isFirst).trans halts

theorem print {word : Token} {used : List Token} {expr : Expr} (isWord : word.kind = .printWord)
    (derived : Phrase .assignment used expr) (behind : Declaration next declared) :
    Seam false (word :: used) next := by
  rcases derived.joins_or_stops behind with ⟨tokens, semicolon, whole, rfl, isSemicolon, joined⟩ | stops
  · exact .inl ⟨_, by simpa using Statement.print isWord (.intro joined isSemicolon)⟩
  · refine of_halts .semicolonAfterValue fun fuel others enough => ?_
    rw [List.length_cons] at enough
    simp only [Parser.Halts, List.cons_append, StmtParser.statementWith, isWord]
    exact StmtParser.printStatement_halts derived (by omega) (stops others)

theorem ret {word : Token} {used : List Token} {value : Option Expr}
    (isWord : word.kind = .returnWord) (clause : Clause used value)
    (behind : Declaration next declared) : Seam false (word :: used) next := by
  cases clause with
  -- The next declaration may be the value that a bare `return` lacks.
  | absent =>
    rcases behind.value_or_stops with ⟨value, ⟨derived, isSemicolon⟩⟩ | stops
    · exact .inl ⟨_, .ret isWord (.present derived) isSemicolon⟩
    · refine of_halts .expression fun fuel others enough => ?_
      obtain ⟨fuel, rfl⟩ : ∃ less, fuel = less + 1 := ⟨fuel - 1, by simp at enough; omega⟩
      simp only [Parser.Halts, List.cons_append, List.nil_append, StmtParser.statementWith, isWord]
      exact StmtParser.returnStatement_halts_bare (stops others)
  | present derived =>
    rcases derived.joins_or_stops behind with ⟨tokens, semicolon, whole, rfl, isSemicolon, joined⟩ | stops
    · exact .inl ⟨_, by simpa using Statement.ret isWord (.present joined) isSemicolon⟩
    · refine of_halts .semicolonAfterReturn fun fuel others enough => ?_
      rw [List.length_cons] at enough
      simp only [Parser.Halts, List.cons_append, StmtParser.statementWith, isWord]
      exact StmtParser.returnStatement_halts derived (by omega) (stops others)

end

end Seam

theorem Statement.ne_nil {dangling : Bool} {tokens : List Token} {stmt : Stmt}
    (derived : Statement dangling tokens stmt) : tokens ≠ [] := by
  obtain ⟨first, tail, rfl, _⟩ := derived.head
  exact List.cons_ne_nil _ _

variable {next : List Token} {declared : Stmt}

/-- The last semicolon of a statement is that of its last expression, however deep it stands. -/
theorem Statement.seam (behind : Declaration next declared) {semicolon : Token}
    (isSemicolon : semicolon.kind = .semicolon) :
    ∀ {dangling : Bool} {tokens : List Token} {stmt : Stmt}, Statement dangling tokens stmt →
      ∀ {cut : List Token}, tokens = cut ++ [semicolon] → Seam dangling cut next
  | _, _, _, .expression (.intro derived _), _, same => by
    obtain ⟨rfl, _⟩ := List.append_inj' same rfl
    exact .expression derived behind
  | _, _, _, .print isWord (@Closed.intro last tokens _ derived _), _, same => by
    obtain ⟨rfl, _⟩ := List.append_inj' (show _ :: tokens ++ [last] = _ from same) rfl
    exact .print isWord derived behind
  | _, _, _, .ret isWord clause _, _, same => by
    obtain ⟨rfl, _⟩ := List.append_inj' same rfl
    exact .ret isWord clause behind
  | _, _, _, .block _ _ isClosing, _, same => by
    obtain ⟨_, same⟩ := List.append_inj' same rfl
    cases same
    cases isClosing.symm.trans isSemicolon
  | _, _, _, .loop isWord isOpening derived isClosing body, _, same => by
    obtain ⟨init, split, rfl⟩ := eq_append_of_last (_ :: _ :: _ ++ [_]) body.ne_nil
      (by simpa using same)
    exact (body.seam behind isSemicolon split).loop isWord isOpening derived isClosing
  | _, _, _, .forLoop isWord isOpening start test isSeparator step isClosing body, _, same => by
    obtain ⟨init, split, rfl⟩ := eq_append_of_last (_ :: _ :: _ ++ _ ++ _ :: _ ++ [_])
      body.ne_nil (by simpa using same)
    exact (body.seam behind isSemicolon split).forLoop isWord isOpening start test isSeparator step
      isClosing
  | _, _, _, .ifOnly isWord isOpening derived isClosing yes, _, same => by
    obtain ⟨init, split, rfl⟩ := eq_append_of_last (_ :: _ :: _ ++ [_]) yes.ne_nil
      (by simpa using same)
    exact (yes.seam behind isSemicolon split).ifOnly isWord isOpening derived isClosing
  | _, _, _, .ifElse isWord isOpening derived isClosing yes isElse no, _, same => by
    obtain ⟨init, split, rfl⟩ := eq_append_of_last (_ :: _ :: _ ++ _ :: _ ++ [_])
      no.ne_nil (by simpa using same)
    exact (no.seam behind isSemicolon split).ifElse isWord isOpening derived isClosing yes isElse

/-- A declaration is left out in front of the next one, whatever stands behind that. -/
def LeftOut (cut next : List Token) (cause : SyntaxError.Cause) : Prop :=
  ∀ fuel others, cut.length + 2 < fuel →
    StmtParser.declaration fuel (cut ++ (next ++ others)) =
      .ok none (StmtParser.resume (next ++ others)) [⟨(next ++ others).head?, cause⟩]

theorem LeftOut.of_halts {cut : List Token} {cause : SyntaxError.Cause}
    (halts : ∀ fuel others, cut.length + 1 < fuel →
      Parser.Halts (StmtParser.declarationWith fuel (StmtParser.statement fuel)
        (StmtParser.declaration fuel)) (cut ++ (next ++ others)) (next ++ others) cause) :
    LeftOut cut next cause := by
  intro fuel others enough
  obtain ⟨fuel, rfl⟩ : ∃ less, fuel = less + 1 := ⟨fuel - 1, by omega⟩
  rw [StmtParser.declaration, StmtParser.recovering, halts fuel others (by omega)]
  rfl

theorem Variable.seam (behind : Declaration next declared) {cut : List Token} {semicolon : Token}
    {stmt : Stmt} (derived : Variable (cut ++ [semicolon]) stmt) :
    (∃ whole, Variable (cut ++ next) whole) ∨ LeftOut cut next .semicolonAfterVariable := by
  generalize same : cut ++ [semicolon] = tokens at derived
  cases derived with
  | @bare word name last isWord isName _ =>
    obtain ⟨rfl, _⟩ := List.append_inj' (show _ = [word, name] ++ [last] from same) rfl
    refine .inr (.of_halts fun fuel others enough => ?_)
    simp only [Parser.Halts, List.cons_append, StmtParser.declarationWith, isWord]
    exact StmtParser.varDecl_halts_bare isName (behind.stops (by decide) others)
  | @initialized word name equals _ value isWord isName isEqual closed =>
    obtain @⟨last, tokens, _, derived, _⟩ := closed
    obtain ⟨rfl, _⟩ := List.append_inj'
      (show _ = word :: name :: equals :: tokens ++ [last] from same) rfl
    rcases derived.joins_or_stops behind with
      ⟨tokens, semicolon, whole, rfl, isSemicolon, joined⟩ | stops
    · have closed : Closed _ whole := .intro joined isSemicolon
      exact .inl ⟨_, by simpa using Variable.initialized isWord isName isEqual closed⟩
    · refine .inr (.of_halts fun fuel others enough => ?_)
      simp only [List.length_cons] at enough
      simp only [Parser.Halts, List.cons_append, StmtParser.declarationWith, isWord]
      exact StmtParser.varDecl_halts isName isEqual derived (by omega) (stops others)

theorem head_of_cut {cut tail : List Token} {semicolon first : Token} {kinds : List Kind}
    (isSemicolon : semicolon.kind = .semicolon) (same : cut ++ [semicolon] = first :: tail)
    (isFirst : first.kind ∈ kinds) (apart : .semicolon ∉ kinds) : ∃ others, cut = first :: others := by
  cases cut with
  | nil =>
    cases same
    exact absurd (isSemicolon ▸ isFirst) apart
  | cons token others =>
    cases same
    exact ⟨others, rfl⟩

theorem Declaration.cut_head {cut : List Token} {semicolon : Token} {stmt : Stmt}
    (derived : Declaration (cut ++ [semicolon]) stmt) (isSemicolon : semicolon.kind = .semicolon) :
    ∃ first others, cut = first :: others ∧ first.kind ∈ Declaration.starters := by
  obtain ⟨first, tail, same, isFirst⟩ := derived.head
  obtain ⟨others, rfl⟩ := head_of_cut isSemicolon same isFirst (by decide)
  exact ⟨first, others, rfl, isFirst⟩

/-- A declaration that lacks its semicolon is one with the next declaration, or is left out in
front of it. -/
theorem Declaration.seam (behind : Declaration next declared) {cut : List Token} {semicolon : Token}
    {stmt : Stmt} (isSemicolon : semicolon.kind = .semicolon)
    (derived : Declaration (cut ++ [semicolon]) stmt) :
    (∃ whole, Declaration (cut ++ next) whole) ∨ ∃ cause, LeftOut cut next cause := by
  generalize same : cut ++ [semicolon] = tokens at derived
  cases derived with
  | function _ _ _ _ _ _ _ isFinish =>
    obtain ⟨_, same⟩ := List.append_inj' same rfl
    cases same
    cases isFinish.symm.trans isSemicolon
  | «variable» derived =>
    subst same
    rcases derived.seam behind with ⟨whole, joined⟩ | leftOut
    · exact .inl ⟨whole, .variable joined⟩
    · exact .inr ⟨_, leftOut⟩
  | statement derived =>
    rcases derived.seam behind isSemicolon same.symm with ⟨whole, joined⟩ | ⟨cause, halts⟩
    · exact .inl ⟨whole, .statement joined⟩
    · refine .inr ⟨cause, .of_halts fun fuel others enough => ?_⟩
      obtain ⟨first, tail, rfl, isFirst⟩ := derived.head
      obtain ⟨inner, rfl⟩ := head_of_cut isSemicolon same isFirst (by decide)
      exact (StmtParser.declarationWith_eq isFirst).trans (halts fuel others enough)

end Grammar

end Lox
