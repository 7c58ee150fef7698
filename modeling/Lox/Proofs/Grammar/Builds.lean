import Lox.Proofs.Grammar.Built
import Lox.Syntax.Program

/-! Every reading builds its trees from the tokens that it reads.

If something is known of each token in front of a parser, then it is known of the tokens in
what the parser builds and of the tokens that it leaves, whether it meets errors or not.
-/

set_option autoImplicit false

namespace Lox

open Token (Kind)
open Syntax

variable {known : Token → Prop}

namespace Syntax

variable {α β : Type} {good : α → Prop} {better : β → Prop}

/-- This holds of what is read, and something is known of all tokens that are left. -/
def Parsed.Builds (known : Token → Prop) (good : α → Prop) : Parsed α → Prop
  | .ok value rest _ => good value ∧ ∀ token ∈ rest, known token
  | .stopped rest _ _ => ∀ token ∈ rest, known token
  | .exhausted => True

theorem Parsed.Builds.after {parsed : Parsed α} (builds : parsed.Builds known good)
    (earlier : List SyntaxError) : (parsed.after earlier).Builds known good := by
  cases parsed <;> exact builds

theorem Parsed.Builds.bind {parsed : Parsed α} {next : α → List Token → Parsed β}
    (builds : parsed.Builds known good)
    (goesOn : ∀ value rest, good value → (∀ token ∈ rest, known token) →
      (next value rest).Builds known better) : (parsed.bind next).Builds known better := by
  cases parsed with
  | ok value rest errors => exact (goesOn value rest builds.1 builds.2).after errors
  | stopped rest earlier last => exact builds
  | exhausted => trivial

namespace Parser

def Builds (known : Token → Prop) (good : α → Prop) (parser : Parser α) : Prop :=
  ∀ tokens, (∀ token ∈ tokens, known token) → (parser tokens).Builds known good

theorem builds_exhausted : (exhausted : Parser α).Builds known good := fun _ _ => trivial

theorem builds_pure {value : α} (holds : good value) : (pure value : Parser α).Builds known good :=
  fun _ all => ⟨holds, all⟩

theorem builds_stop {cause : SyntaxError.Cause} : (stop cause : Parser α).Builds known good :=
  fun _ all => all

theorem builds_note {cause : SyntaxError.Cause} : (note cause).Builds known fun _ => True :=
  fun _ all => ⟨trivial, all⟩

theorem builds_noteAt {at? : Option Token} {cause : SyntaxError.Cause} :
    (noteAt at? cause).Builds known fun _ => True :=
  fun _ all => ⟨trivial, all⟩

theorem builds_nextIs {kind : Kind} : (nextIs kind).Builds known fun _ => True :=
  fun _ all => ⟨trivial, all⟩

theorem Builds.bind {parser : Parser α} {next : α → Parser β} (builds : parser.Builds known good)
    (goesOn : ∀ value, good value → (next value).Builds known better) :
    (parser >>= next).Builds known better :=
  fun tokens all => (builds tokens all).bind fun value rest holds left => goesOn value holds rest left

theorem Builds.mono {parser : Parser α} {weaker : α → Prop} (builds : parser.Builds known good)
    (holds : ∀ value, good value → weaker value) : parser.Builds known weaker := by
  intro tokens all
  have reads := builds tokens all
  cases answer : parser tokens with
  | ok value rest errors =>
    rw [answer] at reads
    exact ⟨holds value reads.1, reads.2⟩
  | stopped rest earlier last =>
    rw [answer] at reads
    exact reads
  | exhausted => trivial

theorem Builds.map {parser : Parser α} {change : α → β} (builds : parser.Builds known good)
    (holds : ∀ value, good value → better (change value)) :
    (change <$> parser).Builds known better := by
  have whole : (parser >>= fun value => pure (change value)).Builds known better :=
    builds.bind fun value known => builds_pure (holds value known)
  exact whole

theorem Builds.ite {condition : Prop} [Decidable condition] {first second : Parser α}
    (whenTrue : first.Builds known good) (whenFalse : second.Builds known good) :
    (if condition then first else second).Builds known good := by
  split
  · exact whenTrue
  · exact whenFalse

theorem builds_accept? {kinds : List Kind} :
    (accept? kinds).Builds known fun found => ∀ token ∈ found, token.IsOf known kinds := by
  intro tokens all
  cases tokens with
  | nil => exact ⟨by simp, all⟩
  | cons token rest =>
    rw [accept?]
    split
    next member =>
      obtain ⟨here, others⟩ := List.forall_mem_cons.mp all
      exact ⟨by simpa using ⟨here, member⟩, others⟩
    next => exact ⟨by simp, all⟩

theorem builds_accept?_bind {kinds : List Kind} {next : Option Token → Parser β}
    (without : (next none).Builds known better)
    (behind : ∀ token : Token, token.IsOf known kinds → (next (some token)).Builds known better) :
    (accept? kinds >>= next).Builds known better := by
  refine builds_accept?.bind fun found holds => ?_
  cases found with
  | none => exact without
  | some token => exact behind token (holds token rfl)

theorem builds_expect {kind : Kind} {cause : SyntaxError.Cause} :
    (expect kind cause).Builds known (Token.IsOf known [kind]) :=
  builds_accept?_bind builds_stop fun _ holds => builds_pure holds

theorem Builds.separated {item : Parser α} (builds : item.Builds known good)
    {tooMany : SyntaxError.Cause} {fuel room : Nat} :
    (Parser.separated item tooMany fuel room).Builds known fun items => ∀ value ∈ items, good value := by
  induction fuel generalizing room with
  | zero => exact builds_exhausted
  | succ fuel ih =>
    have readOthers : ∀ first, good first →
        ((first :: ·) <$> Parser.separated item tooMany fuel (room - 1)).Builds known
          fun items => ∀ value ∈ items, good value :=
      fun first holds => ih.map fun others also => List.forall_mem_cons.mpr ⟨holds, also⟩
    rw [Parser.separated]
    split
    · refine builds_note.bind fun _ _ => builds.bind fun first holds => ?_
      exact builds_accept?_bind (builds_pure (List.forall_mem_singleton.mpr holds)) fun _ _ =>
        readOthers first holds
    · refine builds.bind fun first holds => ?_
      exact builds_accept?_bind (builds_pure (List.forall_mem_singleton.mpr holds)) fun _ _ =>
        readOthers first holds

end Parser

namespace Tier

def Keeps (known : Token → Prop) (tier : Tier) : Prop :=
  ∀ left operator right, left.Built known → operator.IsOf known tier.operators →
    right.Built known → (tier.build left operator right).Built known

theorem keeps_all : ∀ tier ∈ Tier.all, tier.Keeps known := by
  have arithmetic : ∀ kinds : List Kind, (∀ kind ∈ kinds, kind ∈ Operator.binaryKinds) →
      Tier.Keeps known ⟨kinds, .binary⟩ :=
    fun kinds sub _ _ _ left operator right => ⟨left, ⟨operator.1, sub _ operator.2⟩, right⟩
  have logical : ∀ kinds : List Kind, (∀ kind ∈ kinds, kind ∈ [Kind.andWord, Kind.orWord]) →
      Tier.Keeps known ⟨kinds, .logical⟩ :=
    fun kinds sub _ _ _ left operator right => ⟨left, ⟨operator.1, sub _ operator.2⟩, right⟩
  simp only [Tier.all, List.forall_mem_cons]
  refine ⟨arithmetic _ ?_, arithmetic _ ?_, arithmetic _ ?_, arithmetic _ ?_, logical _ ?_,
    logical _ ?_, List.forall_mem_nil _⟩
  all_goals decide

variable {operand : Parser Expr} {tier : Tier}

theorem extend_builds (keeps : tier.Keeps known) (builds : operand.Builds known (Expr.Built known))
    {fuel : Nat} {left : Expr} (built : left.Built known) :
    (tier.extend operand fuel left).Builds known (Expr.Built known) := by
  induction fuel generalizing left with
  | zero => exact Parser.builds_exhausted
  | succ fuel ih =>
    exact Parser.builds_accept?_bind (Parser.builds_pure built) fun _ isOperator =>
      builds.bind fun _ also => ih (keeps _ _ _ built isOperator also)

theorem parser_builds {fuel : Nat} (keeps : tier.Keeps known)
    (builds : operand.Builds known (Expr.Built known)) :
    (Tier.parser fuel operand tier).Builds known (Expr.Built known) :=
  builds.bind fun _ built => extend_builds keeps builds built

end Tier

namespace ExprParser

variable {expression : Parser Expr} {fuel : Nat}

theorem primary_builds (builds : expression.Builds known (Expr.Built known)) :
    (primary expression).Builds known (Expr.Built known) := by
  intro tokens all
  cases tokens with
  | nil => exact all
  | cons token rest =>
    obtain ⟨here, others⟩ := List.forall_mem_cons.mp all
    have group : (do
        let inner ← expression
        let _ ← Parser.expect .rightParen .parenAfterExpression
        pure (Expr.grouping inner) : Parser Expr).Builds known (Expr.Built known) :=
      builds.bind fun _ built => Parser.builds_expect.bind fun _ _ => Parser.builds_pure built
    have constant : ∀ value, Grammar.constant? token = some value →
        (Expr.literal value).Built known := fun value same => .inr ⟨token, here, same⟩
    rw [primary]
    split
    case h_6 same => exact ⟨⟨⟨here, List.mem_singleton.mpr same⟩, rfl⟩, others⟩
    case h_7 => exact group rest others
    case h_8 => exact all
    all_goals
      next same =>
        refine ⟨constant _ ?_, others⟩
        simp only [Grammar.constant?, same]

theorem arguments_builds (builds : expression.Builds known (Expr.Built known)) :
    (arguments fuel expression).Builds known (Expr.AllBuilt known) :=
  Parser.builds_nextIs.bind fun _ _ =>
    .ite (Parser.builds_pure trivial) (builds.separated.mono fun _ => Expr.allBuilt_of_forall)

theorem extendCall_builds (builds : expression.Builds known (Expr.Built known)) {callee : Expr}
    (built : callee.Built known) :
    (extendCall expression fuel callee).Builds known (Expr.Built known) := by
  induction fuel generalizing callee with
  | zero => exact Parser.builds_exhausted
  | succ fuel ih =>
    exact Parser.builds_accept?_bind (Parser.builds_pure built) fun _ _ =>
      (arguments_builds builds).bind fun _ builtAll =>
        Parser.builds_expect.bind fun _ isParen => ih ⟨built, isParen, builtAll⟩

theorem call_builds (builds : expression.Builds known (Expr.Built known)) :
    (call fuel expression).Builds known (Expr.Built known) :=
  (primary_builds builds).bind fun _ built => extendCall_builds builds built

theorem unary_builds {operand : Parser Expr} (builds : operand.Builds known (Expr.Built known)) :
    (unary operand).Builds known (Expr.Built known) := by
  intro tokens
  induction tokens with
  | nil => exact builds []
  | cons token rest ih =>
    intro all
    obtain ⟨here, others⟩ := List.forall_mem_cons.mp all
    rw [unary]
    split
    next isPrefix =>
      have isOperator : token.IsOf known Operator.unaryKinds :=
        ⟨here, by simpa [Operator.unaryKinds] using isPrefix⟩
      exact (ih others).bind fun _ _ built left => ⟨⟨isOperator, built⟩, left⟩
    next => exact builds (token :: rest) all

theorem operation_builds (builds : expression.Builds known (Expr.Built known)) :
    (operation fuel expression).Builds known (Expr.Built known) := by
  have tiers : ∀ (tiers : List Tier) {operand : Parser Expr}, (∀ tier ∈ tiers, tier.Keeps known) →
      operand.Builds known (Expr.Built known) →
      (tiers.foldl (Tier.parser fuel) operand).Builds known (Expr.Built known) := by
    intro tiers
    induction tiers with
    | nil => exact fun _ builds => builds
    | cons tier tiers ih =>
      intro operand keeps builds
      obtain ⟨here, others⟩ := List.forall_mem_cons.mp keeps
      exact ih others (Tier.parser_builds here builds)
  exact tiers Tier.all Tier.keeps_all (unary_builds (call_builds builds))

theorem assignment_builds (builds : expression.Builds known (Expr.Built known)) :
    (assignment fuel expression).Builds known (Expr.Built known) := by
  refine (operation_builds builds).bind fun target built => ?_
  refine Parser.builds_accept?_bind (Parser.builds_pure built) fun _ _ => ?_
  refine builds.bind fun value also => ?_
  split
  next => exact Parser.builds_pure ⟨built.1, also, rfl⟩
  next => exact Parser.builds_noteAt.bind fun _ _ => Parser.builds_pure built

theorem expression_builds : (ExprParser.expression fuel).Builds known (Expr.Built known) := by
  induction fuel with
  | zero => exact Parser.builds_exhausted
  | succ fuel ih => exact assignment_builds ih

end ExprParser

namespace StmtParser

variable {fuel : Nat}

theorem closedBy_builds {kind : Kind} {cause : SyntaxError.Cause} :
    (closedBy fuel kind cause).Builds known (Expr.Built known) :=
  ExprParser.expression_builds.bind fun _ built =>
    Parser.builds_expect.bind fun _ _ => Parser.builds_pure built

theorem expressionStatement_builds :
    (expressionStatement fuel).Builds known (Stmt.BuiltBranch known) :=
  closedBy_builds.bind fun _ built => Parser.builds_pure ⟨built, rfl⟩

theorem optional_builds {finish : Kind} :
    (optional fuel finish).Builds known fun clause => ∀ expr ∈ clause, expr.Built known :=
  Parser.builds_nextIs.bind fun _ _ => .ite (Parser.builds_pure (by simp))
    (ExprParser.expression_builds.map fun _ built => by simpa using built)

theorem varDecl_builds : (varDecl fuel).Builds known (Stmt.Built known) := by
  refine Parser.builds_expect.bind fun name isName => ?_
  refine @Parser.Builds.bind _ _ _ (fun clause => ∀ expr ∈ clause, expr.Built known) _ _ _ ?_
    fun initializer built => ?_
  · refine Parser.builds_accept?_bind (Parser.builds_pure (by simp)) fun _ _ => ?_
    exact ExprParser.expression_builds.map fun _ built => by simpa using built
  · refine Parser.builds_expect.bind fun _ _ => Parser.builds_pure ?_
    cases initializer with
    | none => exact isName
    | some initializer => exact ⟨isName, built _ rfl⟩

theorem printStatement_builds : (printStatement fuel).Builds known (Stmt.BuiltBranch known) :=
  closedBy_builds.bind fun _ built => Parser.builds_pure ⟨built, rfl⟩

theorem returnStatement_builds {keyword : Token} (isReturn : keyword.IsOf known [.returnWord]) :
    (returnStatement fuel keyword).Builds known (Stmt.BuiltBranch known) := by
  refine optional_builds.bind fun value built => ?_
  refine Parser.builds_expect.bind fun _ _ => Parser.builds_pure ?_
  cases value with
  | none => exact ⟨isReturn, rfl⟩
  | some value => exact ⟨⟨isReturn, built _ rfl⟩, rfl⟩

theorem parameters_builds :
    (parameters fuel).Builds known fun params => ∀ param ∈ params, param.IsOf known [.identifier] :=
  Parser.builds_nextIs.bind fun _ _ =>
    .ite (Parser.builds_pure (List.forall_mem_nil _)) Parser.builds_expect.separated

theorem builtBranch_forLoop {initializer : Option Stmt} {condition increment : Option Expr}
    {body : Stmt} (builtInitializer : ∀ stmt ∈ initializer, stmt.Built known)
    (builtCondition : ∀ expr ∈ condition, expr.Built known)
    (builtIncrement : ∀ expr ∈ increment, expr.Built known) (built : body.BuiltBranch known) :
    (forLoop initializer condition increment body).BuiltBranch known := by
  have test : (condition.getD (.literal (.bool true))).Built known := by
    cases condition with
    | none => exact .inl rfl
    | some condition => exact builtCondition _ rfl
  have loop : (forLoop none condition increment body).BuiltBranch known := by
    cases increment with
    | none => exact ⟨⟨test, built⟩, rfl⟩
    | some increment => exact ⟨⟨test, ⟨built.1, builtIncrement _ rfl, trivial⟩, rfl⟩, rfl⟩
  cases initializer with
  | none => exact loop
  | some initializer => exact ⟨⟨builtInitializer _ rfl, loop.1, trivial⟩, rfl⟩

theorem forInitializer_builds :
    (forInitializer fuel).Builds known fun clause => ∀ stmt ∈ clause, stmt.Built known := by
  refine Parser.builds_accept?_bind ?_ fun token _ => .ite (Parser.builds_pure (by simp)) ?_
  · exact expressionStatement_builds.map fun _ built => by simpa using built.1
  · exact varDecl_builds.map fun _ built => by simpa using built

section
variable {statement : Parser Stmt} {declaration : Parser (Option Stmt)}

theorem whileStatement_builds (builds : statement.Builds known (Stmt.BuiltBranch known)) :
    (whileStatement fuel statement).Builds known (Stmt.BuiltBranch known) :=
  Parser.builds_expect.bind fun _ _ => closedBy_builds.bind fun _ built =>
    builds.bind fun _ branch => Parser.builds_pure ⟨⟨built, branch⟩, rfl⟩

theorem ifStatement_builds (builds : statement.Builds known (Stmt.BuiltBranch known)) :
    (ifStatement fuel statement).Builds known (Stmt.BuiltBranch known) :=
  Parser.builds_expect.bind fun _ _ => closedBy_builds.bind fun _ built =>
    builds.bind fun _ branch =>
      Parser.builds_accept?_bind (Parser.builds_pure ⟨⟨built, branch⟩, rfl⟩) fun _ _ =>
        builds.bind fun _ other => Parser.builds_pure ⟨⟨built, branch, other⟩, rfl⟩

theorem forStatement_builds (builds : statement.Builds known (Stmt.BuiltBranch known)) :
    (forStatement fuel statement).Builds known (Stmt.BuiltBranch known) :=
  Parser.builds_expect.bind fun _ _ => forInitializer_builds.bind fun _ first =>
    optional_builds.bind fun _ test => Parser.builds_expect.bind fun _ _ =>
      optional_builds.bind fun _ step => Parser.builds_expect.bind fun _ _ =>
        builds.bind fun _ body => Parser.builds_pure (builtBranch_forLoop first test step body)

theorem declarations_builds
    (builds : declaration.Builds known fun found => ∀ stmt ∈ found, stmt.Built known)
    {closing : List Kind} :
    (declarations declaration closing fuel).Builds known (Stmt.AllBuilt known) := by
  induction fuel with
  | zero => exact Parser.builds_exhausted
  | succ fuel ih =>
    intro tokens all
    unfold declarations
    split
    · exact ⟨trivial, all⟩
    · refine (builds tokens all).bind fun first rest built left => ?_
      refine (ih rest left).bind fun others behind builtOthers last => ?_
      refine ⟨Stmt.allBuilt_append ?_ builtOthers, last⟩
      cases first with
      | none => trivial
      | some first => exact ⟨built _ rfl, trivial⟩

variable (builds : declaration.Builds known fun found => ∀ stmt ∈ found, stmt.Built known)
include builds

theorem block_builds : (block fuel declaration).Builds known (Stmt.AllBuilt known) :=
  (declarations_builds builds).bind fun _ built =>
    Parser.builds_expect.bind fun _ _ => Parser.builds_pure built

theorem funDecl_builds : (funDecl fuel declaration).Builds known (Stmt.Built known) :=
  Parser.builds_expect.bind fun _ isName => Parser.builds_expect.bind fun _ _ =>
    parameters_builds.bind fun _ params => Parser.builds_expect.bind fun _ _ =>
      Parser.builds_expect.bind fun _ _ => (block_builds builds).bind fun _ body =>
        Parser.builds_pure ⟨isName, params, body⟩

theorem statementWith_builds (statements : statement.Builds known (Stmt.BuiltBranch known)) :
    (statementWith fuel statement declaration).Builds known (Stmt.BuiltBranch known) := by
  intro tokens all
  cases tokens with
  | nil => exact expressionStatement_builds [] all
  | cons token rest =>
    obtain ⟨here, others⟩ := List.forall_mem_cons.mp all
    rw [statementWith]
    split
    · exact forStatement_builds statements rest others
    · exact ifStatement_builds statements rest others
    · exact printStatement_builds rest others
    next same => exact returnStatement_builds ⟨here, List.mem_singleton.mpr same⟩ rest others
    · exact whileStatement_builds statements rest others
    · exact ((block_builds builds).map fun _ built => ⟨built, rfl⟩) rest others
    · exact expressionStatement_builds (token :: rest) all

theorem declarationWith_builds (statements : statement.Builds known (Stmt.BuiltBranch known)) :
    (declarationWith fuel statement declaration).Builds known (Stmt.Built known) := by
  have plain : statement.Builds known (Stmt.Built known) := statements.mono fun _ built => built.1
  intro tokens all
  cases tokens with
  | nil => exact plain [] all
  | cons token rest =>
    obtain ⟨_, others⟩ := List.forall_mem_cons.mp all
    rw [declarationWith]
    split
    · exact funDecl_builds builds rest others
    · exact varDecl_builds rest others
    · exact plain (token :: rest) all

end

theorem mem_of_mem_resumeAfter : ∀ {tokens : List Token} {previous token : Token},
    token ∈ resumeAfter previous tokens → token ∈ tokens
  | [], _, _, member => member
  | first :: rest, previous, token, member => by
    rw [resumeAfter] at member
    split at member
    · exact member
    · exact .tail _ (mem_of_mem_resumeAfter member)

theorem mem_of_mem_resume {tokens : List Token} {token : Token} (member : token ∈ resume tokens) :
    token ∈ tokens := by
  cases tokens with
  | nil => exact member
  | cons first rest => exact .tail _ (mem_of_mem_resumeAfter member)

theorem recovering_builds {parser : Parser Stmt} (builds : parser.Builds known (Stmt.Built known)) :
    (recovering parser).Builds known fun found => ∀ stmt ∈ found, stmt.Built known := by
  intro tokens all
  have reads := builds tokens all
  unfold recovering
  cases answer : parser tokens with
  | ok value rest errors =>
    rw [answer] at reads
    exact ⟨by simpa using reads.1, reads.2⟩
  | stopped rest earlier last =>
    rw [answer] at reads
    exact ⟨by simp, fun token member => reads token (mem_of_mem_resume member)⟩
  | exhausted => trivial

theorem statement_declaration_builds :
    (StmtParser.statement fuel).Builds known (Stmt.BuiltBranch known) ∧
      (StmtParser.declaration fuel).Builds known fun found => ∀ stmt ∈ found, stmt.Built known := by
  induction fuel with
  | zero => exact ⟨Parser.builds_exhausted, Parser.builds_exhausted⟩
  | succ fuel ih =>
    exact ⟨statementWith_builds ih.2 ih.1, recovering_builds (declarationWith_builds ih.2 ih.1)⟩

end StmtParser

end Syntax

/-- The statements of any tokens are built from them, with or without errors. -/
theorem Program.built_ofTokens {tokens : List Token} (all : ∀ token ∈ tokens, known token) :
    Stmt.AllBuilt known (ofTokens tokens).statements := by
  have builds : (StmtParser.declarations (StmtParser.declaration (2 * tokens.length + 3)) []
      (2 * tokens.length + 3) tokens).Builds known (Stmt.AllBuilt known) :=
    StmtParser.declarations_builds StmtParser.statement_declaration_builds.2 tokens all
  unfold ofTokens
  dsimp only
  generalize StmtParser.declarations _ [] _ tokens = answer at builds ⊢
  cases answer with
  | ok statements rest errors => exact builds.1
  | stopped rest earlier last => trivial
  | exhausted => trivial

end Lox
