import Lox.Syntax.StmtParser

/-! More fuel changes no answer.

A parser is refined by another one that answers like it wherever it has enough fuel.
Each way to build a parser carries this over from its parts, so a reading is refined by
the same reading with more fuel, whether it meets errors or not.
-/

set_option autoImplicit false

namespace Lox.Syntax

open Token (Kind)

variable {α β : Type}

namespace Parsed

def Refined (parsed other : Parsed α) : Prop := parsed ≠ .exhausted → other = parsed

theorem Refined.bind {parsed other : Parsed α} {next more : α → List Token → Parsed β}
    (refined : parsed.Refined other)
    (goesOn : ∀ value rest, (next value rest).Refined (more value rest)) :
    (parsed.bind next).Refined (other.bind more) := by
  intro answers
  cases parsed with
  | ok value rest errors =>
    rw [refined nofun]
    simp only [Parsed.bind] at answers ⊢
    rw [goesOn value rest fun out => answers (by rw [out]; rfl)]
  | stopped rest earlier last =>
    rw [refined nofun]
    rfl
  | exhausted => exact absurd rfl answers

end Parsed

namespace Parser

def Refined (parser other : Parser α) : Prop := ∀ tokens, (parser tokens).Refined (other tokens)

theorem Refined.refl (parser : Parser α) : parser.Refined parser :=
  fun _ _ => rfl

theorem exhausted_refined (other : Parser α) : (exhausted : Parser α).Refined other :=
  fun _ answers => absurd rfl answers

section
variable {parser other : Parser α}

theorem Refined.bind {next more : α → Parser β} (refined : parser.Refined other)
    (goesOn : ∀ value, (next value).Refined (more value)) :
    (parser >>= next).Refined (other >>= more) :=
  fun tokens => (refined tokens).bind fun value rest => goesOn value rest

theorem Refined.behind {next more : α → Parser β}
    (goesOn : ∀ value, (next value).Refined (more value)) :
    (parser >>= next).Refined (parser >>= more) :=
  (Refined.refl parser).bind goesOn

theorem Refined.before (refined : parser.Refined other) {next : α → Parser β} :
    (parser >>= next).Refined (other >>= next) :=
  refined.bind fun value => .refl (next value)

theorem Refined.map (refined : parser.Refined other) (change : α → β) :
    (change <$> parser).Refined (change <$> other) := by
  have whole : (parser >>= fun value => pure (change value)).Refined
      (other >>= fun value => pure (change value)) := refined.before
  exact whole

theorem Refined.ite {condition : Prop} [Decidable condition] {first second : Parser α}
    (whenTrue : parser.Refined other) (whenFalse : first.Refined second) :
    (if condition then parser else first).Refined (if condition then other else second) := by
  split
  · exact whenTrue
  · exact whenFalse

theorem Refined.accept? {kinds : List Kind} {next more : Option Token → Parser β}
    (without : (next none).Refined (more none))
    (behind : ∀ token, (next (some token)).Refined (more (some token))) :
    (Parser.accept? kinds >>= next).Refined (Parser.accept? kinds >>= more) := by
  refine .behind fun found => ?_
  cases found with
  | none => exact without
  | some token => exact behind token

theorem Refined.separated (refined : parser.Refined other) {tooMany : SyntaxError.Cause} :
    ∀ {fuel more room : Nat}, fuel ≤ more →
      (Parser.separated parser tooMany fuel room).Refined
        (Parser.separated other tooMany more room)
  | 0, _, _, _ => exhausted_refined _
  | fuel + 1, 0, _, le => absurd le (Nat.not_succ_le_zero fuel)
  | fuel + 1, more + 1, room, le => by
    have others : (Parser.separated parser tooMany fuel (room - 1)).Refined
        (Parser.separated other tooMany more (room - 1)) :=
      refined.separated (Nat.le_of_succ_le_succ le)
    rw [Parser.separated, Parser.separated]
    split
    · refine .behind fun _ => refined.bind fun first => ?_
      exact .accept? (.refl _) fun _ => others.map (first :: ·)
    · refine refined.bind fun first => ?_
      exact .accept? (.refl _) fun _ => others.map (first :: ·)

end

end Parser

variable {fuel more : Nat}

namespace Tier

theorem extend_refined {tier : Tier} {operand other : Parser Expr} (refined : operand.Refined other) :
    ∀ {fuel more : Nat} {left : Expr}, fuel ≤ more →
      (tier.extend operand fuel left).Refined (tier.extend other more left)
  | 0, _, _, _ => Parser.exhausted_refined _
  | fuel + 1, 0, _, le => absurd le (Nat.not_succ_le_zero fuel)
  | _ + 1, _ + 1, _, le =>
    .accept? (.refl _) fun _ =>
      refined.bind fun _ => extend_refined refined (Nat.le_of_succ_le_succ le)

theorem parser_refined {tier : Tier} {operand other : Parser Expr} (le : fuel ≤ more)
    (refined : operand.Refined other) :
    (Tier.parser fuel operand tier).Refined (Tier.parser more other tier) :=
  refined.bind fun _ => extend_refined refined le

end Tier

namespace ExprParser

variable {expression other : Parser Expr}

theorem primary_refined (refined : expression.Refined other) :
    (primary expression).Refined (primary other) := by
  intro tokens
  cases tokens with
  | nil => exact fun _ => rfl
  | cons token rest =>
    have group : (do
        let inner ← expression
        let _ ← Parser.expect .rightParen .parenAfterExpression
        pure (Expr.grouping inner) : Parser Expr).Refined (do
        let inner ← other
        let _ ← Parser.expect .rightParen .parenAfterExpression
        pure (Expr.grouping inner) : Parser Expr) := refined.before
    -- Only a parenthesis has an expression behind it.
    rw [primary, primary]
    split
    case h_7 => exact group rest
    all_goals exact fun _ => rfl

theorem arguments_refined (le : fuel ≤ more) (refined : expression.Refined other) :
    (arguments fuel expression).Refined (arguments more other) :=
  .behind fun _ => .ite (.refl _) (refined.separated le)

theorem extendCall_refined (refined : expression.Refined other) :
    ∀ {fuel more : Nat} {callee : Expr}, fuel ≤ more →
      (extendCall expression fuel callee).Refined (extendCall other more callee)
  | 0, _, _, _ => Parser.exhausted_refined _
  | fuel + 1, 0, _, le => absurd le (Nat.not_succ_le_zero fuel)
  | _ + 1, _ + 1, _, le =>
    have less := Nat.le_of_succ_le_succ le
    .accept? (.refl _) fun _ => (arguments_refined less refined).bind fun _ =>
      .behind fun _ => extendCall_refined refined less

theorem call_refined (le : fuel ≤ more) (refined : expression.Refined other) :
    (call fuel expression).Refined (call more other) :=
  (primary_refined refined).bind fun _ => extendCall_refined refined le

theorem unary_refined {operand twin : Parser Expr} (refined : operand.Refined twin) :
    (unary operand).Refined (unary twin) := by
  intro tokens
  induction tokens with
  | nil => exact refined []
  | cons token rest ih =>
    rw [unary, unary]
    split
    · exact ih.bind fun _ _ _ => rfl
    · exact refined (token :: rest)

theorem operation_refined (le : fuel ≤ more) (refined : expression.Refined other) :
    (operation fuel expression).Refined (operation more other) := by
  have tiers : ∀ (tiers : List Tier) {operand twin : Parser Expr}, operand.Refined twin →
      (tiers.foldl (Tier.parser fuel) operand).Refined (tiers.foldl (Tier.parser more) twin) := by
    intro tiers
    induction tiers with
    | nil => exact id
    | cons tier tiers ih => exact fun refined => ih (Tier.parser_refined le refined)
  exact tiers Tier.all (unary_refined (call_refined le refined))

theorem assignment_refined (le : fuel ≤ more) (refined : expression.Refined other) :
    (assignment fuel expression).Refined (assignment more other) :=
  (operation_refined le refined).bind fun _ => .accept? (.refl _) fun _ => refined.before

theorem expression_refined : ∀ {fuel more : Nat}, fuel ≤ more →
    (ExprParser.expression fuel).Refined (ExprParser.expression more)
  | 0, _, _ => Parser.exhausted_refined _
  | fuel + 1, 0, le => absurd le (Nat.not_succ_le_zero fuel)
  | _ + 1, _ + 1, le =>
    have less := Nat.le_of_succ_le_succ le
    assignment_refined less (expression_refined less)

end ExprParser

namespace StmtParser

section
variable (le : fuel ≤ more)
include le

theorem closedBy_refined (kind : Kind) (cause : SyntaxError.Cause) :
    (closedBy fuel kind cause).Refined (closedBy more kind cause) :=
  (ExprParser.expression_refined le).before

theorem expressionStatement_refined :
    (expressionStatement fuel).Refined (expressionStatement more) :=
  (closedBy_refined le _ _).before

theorem optional_refined (finish : Kind) : (optional fuel finish).Refined (optional more finish) :=
  .behind fun _ => .ite (.refl _) ((ExprParser.expression_refined le).map some)

theorem varDecl_refined : (varDecl fuel).Refined (varDecl more) := by
  refine .behind fun name => .before ?_
  exact .accept? (.refl _) fun _ => (ExprParser.expression_refined le).map some

theorem printStatement_refined : (printStatement fuel).Refined (printStatement more) :=
  (closedBy_refined le _ _).before

theorem returnStatement_refined (keyword : Token) :
    (returnStatement fuel keyword).Refined (returnStatement more keyword) :=
  (optional_refined le _).before

theorem forInitializer_refined : (forInitializer fuel).Refined (forInitializer more) :=
  .accept? ((expressionStatement_refined le).map some) fun _ =>
    .ite (.refl _) ((varDecl_refined le).map some)

theorem parameters_refined : (parameters fuel).Refined (parameters more) :=
  .behind fun _ => .ite (.refl _) ((Parser.Refined.refl _).separated le)

variable {statement other : Parser Stmt} {declaration twin : Parser (Option Stmt)}

theorem whileStatement_refined (refined : statement.Refined other) :
    (whileStatement fuel statement).Refined (whileStatement more other) :=
  .behind fun _ => (closedBy_refined le _ _).bind fun _ => refined.before

theorem ifStatement_refined (refined : statement.Refined other) :
    (ifStatement fuel statement).Refined (ifStatement more other) :=
  .behind fun _ => (closedBy_refined le _ _).bind fun _ => refined.bind fun _ =>
    .accept? (.refl _) fun _ => refined.before

theorem forStatement_refined (refined : statement.Refined other) :
    (forStatement fuel statement).Refined (forStatement more other) :=
  .behind fun _ => (forInitializer_refined le).bind fun _ => (optional_refined le _).bind fun _ =>
    .behind fun _ => (optional_refined le _).bind fun _ => .behind fun _ => refined.before

end

variable {statement other : Parser Stmt} {declaration twin : Parser (Option Stmt)}

theorem declarations_refined (refined : declaration.Refined twin) {closing : List Kind} :
    ∀ {fuel more : Nat}, fuel ≤ more →
      (declarations declaration closing fuel).Refined (declarations twin closing more)
  | 0, _, _ => Parser.exhausted_refined _
  | fuel + 1, 0, le => absurd le (Nat.not_succ_le_zero fuel)
  | fuel + 1, more + 1, le => by
    intro tokens
    unfold declarations
    split
    · exact fun _ => rfl
    · refine (refined tokens).bind fun _ rest => ?_
      exact (declarations_refined refined (Nat.le_of_succ_le_succ le) rest).bind fun _ _ _ => rfl

theorem block_refined (le : fuel ≤ more) (refined : declaration.Refined twin) :
    (block fuel declaration).Refined (block more twin) :=
  (declarations_refined refined le).before

theorem funDecl_refined (le : fuel ≤ more) (refined : declaration.Refined twin) :
    (funDecl fuel declaration).Refined (funDecl more twin) :=
  .behind fun _ => .behind fun _ => (parameters_refined le).bind fun _ =>
    .behind fun _ => .behind fun _ => (block_refined le refined).before

theorem statementWith_refined (le : fuel ≤ more) (statements : statement.Refined other)
    (declarations : declaration.Refined twin) :
    (statementWith fuel statement declaration).Refined (statementWith more other twin) := by
  intro tokens
  cases tokens with
  | nil => exact expressionStatement_refined le []
  | cons token rest =>
    rw [statementWith, statementWith]
    split
    · exact forStatement_refined le statements rest
    · exact ifStatement_refined le statements rest
    · exact printStatement_refined le rest
    · exact returnStatement_refined le token rest
    · exact whileStatement_refined le statements rest
    · exact (block_refined le declarations).map Stmt.block rest
    · exact expressionStatement_refined le (token :: rest)

theorem declarationWith_refined (le : fuel ≤ more) (statements : statement.Refined other)
    (declarations : declaration.Refined twin) :
    (declarationWith fuel statement declaration).Refined (declarationWith more other twin) := by
  intro tokens
  cases tokens with
  | nil => exact statements []
  | cons token rest =>
    rw [declarationWith, declarationWith]
    split
    · exact funDecl_refined le declarations rest
    · exact varDecl_refined le rest
    · exact statements (token :: rest)

theorem recovering_refined {parser second : Parser Stmt} (refined : parser.Refined second) :
    (recovering parser).Refined (recovering second) := by
  intro tokens answers
  unfold recovering at answers ⊢
  rw [refined tokens fun out => answers (by rw [out])]

theorem statement_declaration_refined : ∀ {fuel more : Nat}, fuel ≤ more →
    (StmtParser.statement fuel).Refined (StmtParser.statement more) ∧
      (StmtParser.declaration fuel).Refined (StmtParser.declaration more)
  | 0, _, _ => ⟨Parser.exhausted_refined _, Parser.exhausted_refined _⟩
  | fuel + 1, 0, le => absurd le (Nat.not_succ_le_zero fuel)
  | fuel + 1, more + 1, le => by
    have less : fuel ≤ more := Nat.le_of_succ_le_succ le
    obtain ⟨statements, declarations⟩ := statement_declaration_refined less
    exact ⟨statementWith_refined less statements declarations,
      recovering_refined (declarationWith_refined less statements declarations)⟩

end StmtParser

end Lox.Syntax
