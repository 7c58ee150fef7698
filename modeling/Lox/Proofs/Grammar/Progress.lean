import Lox.Syntax.StmtParser

/-! No reading runs out of fuel.

A parser finishes below a limit if on less tokens than that it answers, one way or
the other, and leaves no more tokens than it was given; a success also uses a
number of them. What stands behind a token is read below a limit smaller by one,
and an expression has one unit of fuel for each token. A statement needs two, the
second for the step from a declaration to the statement that it is.
-/

set_option autoImplicit false

namespace Lox.Syntax

open Token (Kind)

variable {α β : Type}

namespace Parsed

/-- An answer that is not for lack of fuel, with a bound on what it leaves: a
success leaves a number of tokens less than the bound. -/
def Finishes (bound used : Nat) : Parsed α → Prop
  | .ok _ rest _ => rest.length + used ≤ bound
  | .stopped rest _ _ => rest.length ≤ bound
  | .exhausted => False

theorem Finishes.after {bound used : Nat} {parsed : Parsed α} (finishes : parsed.Finishes bound used)
    (earlier : List SyntaxError) : (parsed.after earlier).Finishes bound used := by
  cases parsed <;> exact finishes

theorem Finishes.mono {bound used more fewer : Nat} {parsed : Parsed α}
    (finishes : parsed.Finishes bound used) (wider : bound + fewer ≤ more + used)
    (larger : bound ≤ more) : parsed.Finishes more fewer := by
  cases parsed with
  | ok value rest errors =>
    have left : rest.length + used ≤ bound := finishes
    exact show rest.length + fewer ≤ more by omega
  | stopped rest earlier last => exact Nat.le_trans finishes larger
  | exhausted => exact finishes

theorem Finishes.bind {bound first used : Nat} {parsed : Parsed α}
    {next : α → List Token → Parsed β} (finishes : parsed.Finishes bound first)
    (goesOn : ∀ value rest, rest.length + first ≤ bound →
      (next value rest).Finishes rest.length (used - first)) :
    (parsed.bind next).Finishes bound used := by
  cases parsed with
  | ok value rest errors =>
    have left : rest.length + first ≤ bound := finishes
    exact ((goesOn value rest left).mono (by omega) (by omega)).after errors
  | stopped rest earlier last => exact finishes
  | exhausted => exact finishes

end Parsed

namespace Parser

/-- On less tokens than the limit, the parser has enough fuel, and uses a number of
tokens where it succeeds. -/
def Finishes (parser : Parser α) (limit used : Nat) : Prop :=
  ∀ tokens, tokens.length < limit → (parser tokens).Finishes tokens.length used

section
variable {limit used : Nat}

theorem Finishes.mono {parser : Parser α} (finishes : parser.Finishes limit used) {less fewer : Nat}
    (lower : less ≤ limit) (weaker : fewer ≤ used) : parser.Finishes less fewer := by
  intro tokens short
  exact (finishes tokens (by omega)).mono (by omega) (Nat.le_refl _)

theorem finishes_pure {value : α} : (pure value : Parser α).Finishes limit 0 :=
  fun tokens _ => Nat.le_refl tokens.length

theorem Finishes.bind {parser : Parser α} {next : α → Parser β} {first : Nat}
    (finishes : parser.Finishes limit first)
    (goesOn : ∀ value, (next value).Finishes (limit - first) (used - first)) :
    (parser >>= next).Finishes limit used := by
  intro tokens short
  refine (finishes tokens short).bind fun value rest left => ?_
  exact goesOn value rest (by omega)

theorem Finishes.map {parser : Parser α} (finishes : parser.Finishes limit used) (change : α → β) :
    (change <$> parser).Finishes limit used := by
  have whole : (parser >>= fun value => pure (change value)).Finishes limit used :=
    finishes.bind fun _ => finishes_pure.mono (Nat.le_refl _) (by omega)
  exact whole

theorem finishes_nextIs {kind : Kind} : (nextIs kind).Finishes limit 0 :=
  fun tokens _ => Nat.le_refl tokens.length

theorem finishes_stop {cause : SyntaxError.Cause} : (stop cause : Parser α).Finishes limit used :=
  fun tokens _ => Nat.le_refl tokens.length

theorem finishes_note {cause : SyntaxError.Cause} : (note cause).Finishes limit 0 :=
  fun tokens _ => Nat.le_refl tokens.length

theorem finishes_noteAt {at? : Option Token} {cause : SyntaxError.Cause} :
    (noteAt at? cause).Finishes limit 0 :=
  fun tokens _ => Nat.le_refl tokens.length

theorem finishes_accept?_bind {kinds : List Kind} {next : Option Token → Parser β}
    (without : (next none).Finishes limit used)
    (behind : ∀ token, (next (some token)).Finishes (limit - 1) (used - 1)) :
    (accept? kinds >>= next).Finishes limit used := by
  intro tokens short
  cases tokens with
  | nil => simpa [accept?, Parsed.bind, Parsed.after] using (without [] short).after []
  | cons token rest =>
    -- Only an accepted token is used; any other one is left to what comes next.
    by_cases member : token.kind ∈ kinds
    · simp only [bind_apply, accept?, member, if_true, Parsed.bind]
      simp only [List.length_cons] at short ⊢
      exact ((behind token rest (by omega)).mono (by omega) (by omega)).after []
    · simp only [bind_apply, accept?, member, if_false, Parsed.bind]
      exact (without _ short).after []

theorem finishes_expect {kind : Kind} {cause : SyntaxError.Cause} :
    (expect kind cause).Finishes limit 1 :=
  finishes_accept?_bind finishes_stop fun _ => finishes_pure

theorem Finishes.separated {item : Parser α} (finishes : item.Finishes limit 1)
    {tooMany : SyntaxError.Cause} :
    ∀ {fuel room : Nat}, fuel ≤ limit → (Parser.separated item tooMany fuel room).Finishes fuel 1
  | 0, _, _ => fun _ short => absurd short (Nat.not_lt_zero _)
  | fuel + 1, room, enough => by
    have readFirst : item.Finishes (fuel + 1) 1 := finishes.mono enough (Nat.le_refl 1)
    have readRest : ∀ first,
        ((first :: ·) <$> Parser.separated item tooMany fuel (room - 1)).Finishes (fuel - 1) 0 :=
      fun first => ((finishes.separated (by omega)).map (first :: ·)).mono (by omega) (by omega)
    -- Each item uses a token, so what is left needs one unit of fuel less.
    rw [Parser.separated]
    by_cases full : room = 0
    · rw [if_pos full]
      refine finishes_note.bind fun _ => readFirst.bind fun first => ?_
      exact finishes_accept?_bind finishes_pure fun _ => readRest first
    · rw [if_neg full]
      refine readFirst.bind fun first => ?_
      exact finishes_accept?_bind finishes_pure fun _ => readRest first

end

end Parser

namespace Tier

theorem extend_finishes {tier : Tier} {operand : Parser Expr} {limit : Nat}
    (finishes : operand.Finishes limit 1) :
    ∀ {fuel : Nat} {left : Expr}, fuel ≤ limit → (tier.extend operand fuel left).Finishes fuel 0
  | 0, _, _ => fun _ short => absurd short (Nat.not_lt_zero _)
  | fuel + 1, left, enough => by
    refine Parser.finishes_accept?_bind Parser.finishes_pure fun operator => ?_
    have readRight : operand.Finishes fuel 1 := finishes.mono (by omega) (Nat.le_refl 1)
    refine readRight.bind fun right => ?_
    have readMore : (tier.extend operand fuel (tier.build left operator right)).Finishes fuel 0 :=
      extend_finishes finishes (by omega)
    exact readMore.mono (by omega) (Nat.le_refl 0)

theorem parser_finishes {tier : Tier} {operand : Parser Expr} {fuel : Nat}
    (finishes : operand.Finishes (fuel + 1) 1) :
    (Tier.parser fuel operand tier).Finishes (fuel + 1) 1 :=
  finishes.bind fun _ => extend_finishes finishes (Nat.le_succ fuel)

end Tier

namespace ExprParser

variable {expression : Parser Expr} {fuel : Nat}

theorem primary_finishes (finishes : expression.Finishes fuel 1) :
    (primary expression).Finishes (fuel + 1) 1 := by
  intro tokens short
  cases tokens with
  | nil => exact Nat.le_refl _
  | cons token rest =>
    have readGroup : (do
        let inner ← expression
        let _ ← Parser.expect .rightParen .parenAfterExpression
        pure (Expr.grouping inner) : Parser Expr).Finishes fuel 0 := by
      refine finishes.bind fun inner => ?_
      exact Parser.finishes_expect.bind fun _ => Parser.finishes_pure
    simp only [List.length_cons, Nat.add_lt_add_iff_right] at short
    rw [primary]
    split
    case h_7 => exact (readGroup rest short).mono (Nat.le_refl _) (Nat.le_succ _)
    all_goals exact Nat.le_refl _

theorem arguments_finishes {limit : Nat} (finishes : expression.Finishes limit 1)
    (enough : fuel ≤ limit) : (arguments fuel expression).Finishes fuel 0 := by
  refine Parser.finishes_nextIs.bind fun closes => ?_
  by_cases empty : closes = true
  · rw [if_pos empty]
    exact Parser.finishes_pure
  · rw [if_neg empty]
    exact (finishes.separated enough).mono (Nat.le_refl _) (Nat.zero_le _)

theorem extendCall_finishes {limit : Nat} (finishes : expression.Finishes limit 1) :
    ∀ {fuel : Nat} {callee : Expr}, fuel ≤ limit →
      (extendCall expression fuel callee).Finishes fuel 0
  | 0, _, _ => fun _ short => absurd short (Nat.not_lt_zero _)
  | fuel + 1, callee, enough => by
    refine Parser.finishes_accept?_bind Parser.finishes_pure fun _ => ?_
    refine (arguments_finishes finishes (by omega)).bind fun arguments => ?_
    refine Parser.finishes_expect.bind fun paren => ?_
    have readMore : (extendCall expression fuel (.call callee paren arguments)).Finishes fuel 0 :=
      extendCall_finishes finishes (by omega)
    exact readMore.mono (by omega) (Nat.le_refl 0)

theorem call_finishes (finishes : expression.Finishes fuel 1) :
    (call fuel expression).Finishes (fuel + 1) 1 :=
  (primary_finishes finishes).bind fun _ => extendCall_finishes finishes (Nat.le_refl fuel)

theorem unary_finishes {operand : Parser Expr} {limit : Nat} (finishes : operand.Finishes limit 1) :
    (unary operand).Finishes limit 1 := by
  intro tokens short
  induction tokens with
  | nil => exact finishes [] short
  | cons token rest others =>
    rw [unary]
    split
    · have readOperand := others (Nat.lt_of_succ_lt short)
      have readWhole : Parsed.Finishes rest.length 1 ((unary operand rest).bind fun inner left =>
          .ok (Expr.unary token inner) left []) :=
        readOperand.bind fun _ left _ => Nat.le_refl left.length
      exact readWhole.mono (by simp) (Nat.le_succ _)
    · exact finishes _ short

theorem operation_finishes (finishes : expression.Finishes fuel 1) :
    (operation fuel expression).Finishes (fuel + 1) 1 := by
  have tiers : ∀ (tiers : List Tier) {operand : Parser Expr}, operand.Finishes (fuel + 1) 1 →
      (tiers.foldl (Tier.parser fuel) operand).Finishes (fuel + 1) 1 := by
    intro tiers
    induction tiers with
    | nil => exact id
    | cons tier tiers others => exact fun finishes => others (Tier.parser_finishes finishes)
  exact tiers Tier.all (unary_finishes (call_finishes finishes))

theorem assignment_finishes (finishes : expression.Finishes fuel 1) :
    (assignment fuel expression).Finishes (fuel + 1) 1 := by
  refine (operation_finishes finishes).bind fun target => ?_
  refine Parser.finishes_accept?_bind Parser.finishes_pure fun equals => ?_
  have readValue : expression.Finishes (fuel + 1 - 1 - 1) 1 :=
    finishes.mono (by omega) (Nat.le_refl 1)
  refine readValue.bind fun value => ?_
  split
  · exact Parser.finishes_pure
  · exact Parser.finishes_noteAt.bind fun _ => Parser.finishes_pure

/-- An expression has enough fuel if it exceeds the number of tokens. -/
theorem expression_finishes : ∀ fuel : Nat, (ExprParser.expression fuel).Finishes fuel 1
  | 0 => fun _ short => absurd short (Nat.not_lt_zero _)
  | fuel + 1 => assignment_finishes (expression_finishes fuel)

end ExprParser

/-- On less tokens than the limit but at least one, the parser uses some and goes on. -/
def Parser.Advances (parser : Parser α) (limit : Nat) : Prop :=
  ∀ tokens, tokens ≠ [] → tokens.length < limit →
    ∃ value rest errors, parser tokens = .ok value rest errors ∧ rest.length < tokens.length

namespace StmtParser

variable {fuel limit : Nat} {statement : Parser Stmt} {declaration : Parser (Option Stmt)}

theorem expression_finishes (enough : limit ≤ fuel) :
    (ExprParser.expression fuel).Finishes limit 1 :=
  (ExprParser.expression_finishes fuel).mono enough (Nat.le_refl 1)

theorem closedBy_finishes {kind : Kind} {cause : SyntaxError.Cause} (enough : limit ≤ fuel) :
    (closedBy fuel kind cause).Finishes limit 1 := by
  refine (expression_finishes enough).bind fun value => ?_
  exact Parser.finishes_expect.bind fun _ => Parser.finishes_pure

theorem optional_finishes {kind : Kind} (enough : limit ≤ fuel) :
    (optional fuel kind).Finishes limit 0 := by
  refine Parser.finishes_nextIs.bind fun closes => ?_
  by_cases absent : closes = true
  · rw [if_pos absent]
    exact Parser.finishes_pure
  · rw [if_neg absent]
    exact ((expression_finishes enough).map some).mono (Nat.le_refl _) (Nat.zero_le _)

theorem expressionStatement_finishes (enough : limit ≤ fuel) :
    (expressionStatement fuel).Finishes limit 1 :=
  (closedBy_finishes enough).map Stmt.expression

theorem printStatement_finishes (enough : limit ≤ fuel) : (printStatement fuel).Finishes limit 1 :=
  (closedBy_finishes enough).map Stmt.print

theorem varDecl_finishes (enough : limit ≤ fuel) : (varDecl fuel).Finishes limit 1 := by
  refine Parser.finishes_expect.bind fun name => ?_
  refine @Parser.Finishes.bind _ _ _ _ _ _ 0 ?_ fun initializer => ?_
  · refine Parser.finishes_accept?_bind Parser.finishes_pure fun _ => ?_
    have readValue : (ExprParser.expression fuel).Finishes (limit - 1 - 1) 1 :=
      expression_finishes (by omega)
    exact (readValue.map some).mono (Nat.le_refl _) (Nat.zero_le _)
  · exact Parser.finishes_expect.bind fun _ => Parser.finishes_pure

theorem returnStatement_finishes {keyword : Token} (enough : limit ≤ fuel) :
    (returnStatement fuel keyword).Finishes limit 1 := by
  refine (optional_finishes enough).bind fun value => ?_
  exact Parser.finishes_expect.bind fun _ => Parser.finishes_pure

theorem whileStatement_finishes (finishes : statement.Finishes limit 1) (enough : limit ≤ fuel) :
    (whileStatement fuel statement).Finishes limit 1 := by
  refine Parser.finishes_expect.bind fun _ => ?_
  refine (closedBy_finishes (by omega)).bind fun condition => ?_
  exact (finishes.mono (by omega) (Nat.le_refl 1)).bind fun _ => Parser.finishes_pure

theorem ifStatement_finishes (finishes : statement.Finishes limit 1) (enough : limit ≤ fuel) :
    (ifStatement fuel statement).Finishes limit 1 := by
  refine Parser.finishes_expect.bind fun _ => ?_
  refine (closedBy_finishes (by omega)).bind fun condition => ?_
  refine (finishes.mono (by omega) (Nat.le_refl 1)).bind fun yes => ?_
  refine Parser.finishes_accept?_bind Parser.finishes_pure fun _ => ?_
  exact (finishes.mono (by omega) (Nat.le_refl 1)).bind fun _ => Parser.finishes_pure

theorem forInitializer_finishes (enough : limit ≤ fuel) :
    (forInitializer fuel).Finishes limit 0 := by
  refine Parser.finishes_accept?_bind ?_ fun token => ?_
  · exact ((expressionStatement_finishes enough).map some).mono (Nat.le_refl _) (Nat.zero_le _)
  · by_cases absent : token.kind = .semicolon
    · simp only [absent, if_true]
      exact Parser.finishes_pure
    · simp only [absent, if_false]
      have readVariable : (varDecl fuel).Finishes (limit - 1) 1 := varDecl_finishes (by omega)
      exact (readVariable.map some).mono (Nat.le_refl _) (Nat.zero_le _)

theorem forStatement_finishes (finishes : statement.Finishes limit 1) (enough : limit ≤ fuel) :
    (forStatement fuel statement).Finishes limit 1 := by
  refine Parser.finishes_expect.bind fun _ => ?_
  refine (forInitializer_finishes (by omega)).bind fun initializer => ?_
  refine (optional_finishes (by omega)).bind fun condition => ?_
  refine Parser.finishes_expect.bind fun _ => ?_
  refine (optional_finishes (by omega)).bind fun increment => ?_
  refine Parser.finishes_expect.bind fun _ => ?_
  exact (finishes.mono (by omega) (Nat.le_refl 1)).bind fun _ => Parser.finishes_pure

theorem parameters_finishes (enough : limit ≤ fuel) : (parameters fuel).Finishes limit 0 := by
  refine Parser.finishes_nextIs.bind fun closes => ?_
  by_cases empty : closes = true
  · rw [if_pos empty]
    exact Parser.finishes_pure
  · rw [if_neg empty]
    have readName : (Parser.expect .identifier .parameterName).Finishes fuel 1 :=
      Parser.finishes_expect
    exact (readName.separated (Nat.le_refl fuel)).mono enough (Nat.zero_le _)

/-- Declarations are read up to a closing token or to the end, whatever they are. -/
theorem declarations_advance (advances : declaration.Advances limit) {closing : List Kind} :
    ∀ {fuel : Nat} (tokens : List Token), tokens.length < limit → tokens.length < fuel →
      ∃ stmts rest errors, declarations declaration closing fuel tokens = .ok stmts rest errors ∧
        rest.length ≤ tokens.length ∧ ∀ token ∈ rest.head?, token.kind ∈ closing
  | 0, _, _, enough => absurd enough (Nat.not_lt_zero _)
  | fuel + 1, tokens, short, enough => by
    rw [declarations]
    by_cases closes : tokens.head?.all (·.kind ∈ closing) = true
    · refine ⟨[], tokens, [], if_pos closes, Nat.le_refl _, fun token next => ?_⟩
      rw [Option.mem_def.mp next] at closes
      simpa using closes
    · have some : tokens ≠ [] := by
        rintro rfl
        exact closes rfl
      obtain ⟨first, middle, errors, answer, shorter⟩ := advances tokens some short
      obtain ⟨others, rest, more, answers, left, closed⟩ :
          ∃ stmts rest errors, declarations declaration closing fuel middle =
            .ok stmts rest errors ∧ rest.length ≤ middle.length ∧
              ∀ token ∈ rest.head?, token.kind ∈ closing :=
        declarations_advance advances middle (by omega) (by omega)
      refine ⟨first.toList ++ others, rest, errors ++ (more ++ []), ?_, by omega, closed⟩
      simp only [if_neg closes, answer, answers, Parsed.bind, Parsed.after]

theorem block_finishes (advances : declaration.Advances limit) (enough : limit ≤ fuel) :
    (block fuel declaration).Finishes limit 1 := by
  have readBody : (declarations declaration [.rightBrace] fuel).Finishes limit 0 := by
    intro tokens short
    obtain ⟨stmts, rest, errors, answer, left, _⟩ :=
      declarations_advance advances tokens short (Nat.lt_of_lt_of_le short enough)
    rw [answer]
    exact left
  refine readBody.bind fun body => ?_
  exact Parser.finishes_expect.bind fun _ => Parser.finishes_pure

theorem funDecl_finishes (advances : declaration.Advances limit) (enough : limit ≤ fuel) :
    (funDecl fuel declaration).Finishes limit 1 := by
  have fewer : ∀ less, less ≤ limit → declaration.Advances less := fun less lower tokens some short =>
    advances tokens some (by omega)
  refine Parser.finishes_expect.bind fun name => ?_
  refine Parser.finishes_expect.bind fun _ => ?_
  refine (parameters_finishes (by omega)).bind fun params => ?_
  refine Parser.finishes_expect.bind fun _ => ?_
  refine Parser.finishes_expect.bind fun _ => ?_
  exact (block_finishes (fewer _ (by omega)) (by omega)).bind fun _ =>
    Parser.finishes_pure.mono (Nat.le_refl _) (by omega)

theorem finishes_cons {parser : Parser α} {token : Token} {rest : List Token}
    (finishes : parser.Finishes limit 1) (short : (token :: rest).length < limit + 1) :
    (parser rest).Finishes (token :: rest).length 1 := by
  simp only [List.length_cons, Nat.add_lt_add_iff_right] at short
  exact (finishes rest short).mono (by simp) (by simp)

theorem statementWith_finishes (finishes : statement.Finishes limit 1)
    (advances : declaration.Advances limit) (enough : limit < fuel) :
    Parser.Finishes (statementWith fuel statement declaration) (limit + 1) 1 := by
  intro tokens short
  cases tokens with
  | nil => exact expressionStatement_finishes enough [] short
  | cons token rest =>
    have below : limit ≤ fuel := Nat.le_of_lt enough
    rw [statementWith]
    split
    · exact finishes_cons (forStatement_finishes finishes below) short
    · exact finishes_cons (ifStatement_finishes finishes below) short
    · exact finishes_cons (printStatement_finishes below) short
    · exact finishes_cons (returnStatement_finishes below) short
    · exact finishes_cons (whileStatement_finishes finishes below) short
    · exact finishes_cons ((block_finishes advances below).map Stmt.block) short
    · exact expressionStatement_finishes enough _ short

theorem declarationWith_finishes (finishes : statement.Finishes (limit + 1) 1)
    (advances : declaration.Advances limit) (enough : limit ≤ fuel) :
    Parser.Finishes (declarationWith fuel statement declaration) (limit + 1) 1 := by
  intro tokens short
  cases tokens with
  | nil => exact finishes [] short
  | cons token rest =>
    rw [declarationWith]
    split
    · exact finishes_cons (funDecl_finishes advances enough) short
    · exact finishes_cons (varDecl_finishes enough) short
    · exact finishes _ short

theorem resumeAfter_length (tokens : List Token) :
    ∀ previous : Token, (resumeAfter previous tokens).length ≤ tokens.length := by
  induction tokens with
  | nil => exact fun _ => Nat.le_refl _
  | cons token rest others =>
    intro previous
    rw [resumeAfter]
    split
    · exact Nat.le_refl _
    · exact Nat.le_succ_of_le (others token)

theorem recovering_advances {parser : Parser Stmt} (finishes : parser.Finishes limit 1) :
    (recovering parser).Advances limit := by
  intro tokens some short
  have answers := finishes tokens short
  rw [recovering]
  cases answer : parser tokens with
  | ok stmt rest errors =>
    rw [answer] at answers
    exact ⟨_, rest, errors, rfl, answers⟩
  | stopped rest earlier last =>
    rw [answer] at answers
    refine ⟨none, resume rest, earlier ++ [last], rfl, ?_⟩
    cases rest with
    | nil => exact List.length_pos_iff.mpr some
    | cons token rest => exact Nat.lt_of_le_of_lt (resumeAfter_length rest token) answers
  | exhausted =>
    rw [answer] at answers
    exact answers.elim

mutual

theorem statement_finishes : ∀ {fuel limit : Nat}, 2 * limit ≤ fuel →
    (StmtParser.statement fuel).Finishes limit 1
  | _, 0, _ => fun _ short => absurd short (Nat.not_lt_zero _)
  | fuel + 1, limit + 1, enough =>
    statementWith_finishes (statement_finishes (by omega)) (declaration_advances (by omega))
      (by omega)

theorem declaration_advances : ∀ {fuel limit : Nat}, 2 * limit < fuel →
    (StmtParser.declaration fuel).Advances limit
  | _, 0, _ => fun _ _ short => absurd short (Nat.not_lt_zero _)
  | fuel + 1, limit + 1, enough =>
    recovering_advances
      (declarationWith_finishes (statement_finishes (by omega)) (declaration_advances (by omega))
        (by omega))

end

end StmtParser

end Lox.Syntax
