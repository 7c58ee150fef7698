import Lox.Proofs.Grammar.ExprSoundness

/-! Every expression of the grammar is read without errors.

A phrase is read up to its end if no token behind it could extend it. Every
statement bounds the tokens of the phrase by the fuel: an operand loop uses one
unit for each operator, and an expression inside another stands behind at least
one token of its own.
-/

set_option autoImplicit false

namespace Lox.Grammar.Level

open Token (Kind)

/-- The tokens that, behind a phrase, could still belong to it. -/
def extending : Level → List Kind
  | .primary => []
  | .call | .unary => [.leftParen]
  | .factor => [.slash, .star, .leftParen]
  | .term => [.minus, .plus, .slash, .star, .leftParen]
  | .comparison =>
    [.greater, .greaterEqual, .less, .lessEqual, .minus, .plus, .slash, .star, .leftParen]
  | .equality =>
    [.bangEqual, .equalEqual, .greater, .greaterEqual, .less, .lessEqual, .minus, .plus, .slash,
      .star, .leftParen]
  | .conjunction =>
    [.andWord, .bangEqual, .equalEqual, .greater, .greaterEqual, .less, .lessEqual, .minus, .plus,
      .slash, .star, .leftParen]
  | .disjunction =>
    [.orWord, .andWord, .bangEqual, .equalEqual, .greater, .greaterEqual, .less, .lessEqual,
      .minus, .plus, .slash, .star, .leftParen]
  | .assignment =>
    [.equal, .orWord, .andWord, .bangEqual, .equalEqual, .greater, .greaterEqual, .less,
      .lessEqual, .minus, .plus, .slash, .star, .leftParen]

theorem extending_subset {level inner : Level} (tighter : level.inner? = some inner) :
    inner.extending ⊆ level.extending := by
  cases level <;> cases tighter <;> simp [extending]

theorem operators_subset (level : Level) : level.operators ⊆ level.extending := by
  cases level <;> simp [operators, extending]

theorem not_extending_of_operator {level inner : Level} {kind : Kind}
    (tighter : level.inner? = some inner) (operator : kind ∈ level.operators) :
    kind ∉ inner.extending := by
  cases level <;> cases tighter <;> simp [operators] at operator <;>
    rcases operator with rfl | rfl | rfl | rfl <;> decide

end Lox.Grammar.Level

namespace Lox.Syntax

open Grammar
open Token (Kind)

section
variable {α : Type} {item : Parser α} {derives : List Token → α → Prop} {limit : Nat}
  {extending : List Kind}

theorem Parser.Complete.separated (complete : item.Complete limit extending derives)
    (noComma : .comma ∉ extending)
    (nonempty : ∀ {used : List Token} {value : α}, derives used value → 0 < used.length)
    {tooMany : SyntaxError.Cause} {used : List Token} {items : List α}
    (derived : Separated derives used items) :
    ∀ {fuel room : Nat} {rest : List Token}, used.length ≤ limit → used.length ≤ fuel →
      items.length ≤ room → Stops (.comma :: extending) rest →
      (Parser.separated item tooMany fuel room).Reads (used ++ rest) items rest := by
  induction derived with
  | @last tokens value derivedItem =>
    intro fuel room rest short enough few stops
    -- Each item takes a token, so there is fuel for it.
    have positive := nonempty derivedItem
    obtain ⟨fuel, rfl⟩ : ∃ less, fuel = less + 1 := ⟨fuel - 1, by omega⟩
    have some : room ≠ 0 := by simp at few; omega
    rw [Parser.separated, if_neg some, Parser.reads_bind]
    refine ⟨value, rest, complete _ _ _ derivedItem short (stops.mono (by simp)), ?_⟩
    rw [Parser.reads_accept?_bind]
    exact .inl ⟨stops.mono (by simp), Parser.reads_pure.mpr ⟨rfl, rfl⟩⟩
  | @more comma tokens others value values derivedItem isComma _ ih =>
    intro fuel room rest short enough few stops
    simp only [List.length_append, List.length_cons] at short enough few
    obtain ⟨fuel, rfl⟩ : ∃ less, fuel = less + 1 := ⟨fuel - 1, by omega⟩
    have some : room ≠ 0 := by omega
    have first := complete tokens value (comma :: others ++ rest) derivedItem (by omega)
      -- The comma ends the item, for it cannot belong to it.
      (by simpa [isComma] using noComma)
    have more := @ih fuel (room - 1) rest (by omega) (by omega) (by omega) stops
    rw [Parser.separated, if_neg some, Parser.reads_bind, List.append_assoc]
    refine ⟨value, _, first, ?_⟩
    rw [Parser.reads_accept?_bind]
    refine .inr ⟨comma, others ++ rest, rfl, List.mem_singleton.mpr isComma, ?_⟩
    exact Parser.reads_bind.mpr ⟨values, rest, more, Parser.reads_pure.mpr ⟨rfl, rfl⟩⟩

end

abbrev Parser.CompleteFor (parser : Parser Expr) (limit : Nat) (level : Level) : Prop :=
  parser.Complete limit level.extending (Phrase level)

namespace ExprParser

variable {expression : Parser Expr} {fuel limit : Nat}

theorem primary_complete (complete : expression.CompleteFor limit .assignment) :
    (primary expression).CompleteFor (limit + 1) .primary := by
  intro used value rest derived short stops
  cases derived with
  | constant same =>
    unfold constant? at same
    split at same <;> cases same <;> simp [Parser.Reads, primary, *]
  | name kind => simp [Parser.Reads, primary, kind]
  | @group opening closing tokens inner isOpening derivedInner isClosing =>
    simp only [List.length_append, List.length_cons] at short
    have readInner := complete tokens inner (closing :: rest) derivedInner (by omega)
      (by simp [isClosing, Level.extending])
    simp only [Parser.Reads, List.cons_append, List.append_assoc, primary, isOpening]
    refine Parser.reads_bind.mpr ⟨inner, _, readInner, ?_⟩
    exact Parser.reads_bind.mpr ⟨closing, rest, Parser.reads_expect.mpr ⟨rfl, isClosing⟩,
      Parser.reads_pure.mpr ⟨rfl, rfl⟩⟩
  | binary tighter => cases tighter
  | tighter tighter => cases tighter

theorem arguments_complete (complete : expression.CompleteFor limit .assignment)
    {inside : List Token} {values : List Expr} {closing : Token} {rest : List Token}
    (derived : Listed (Phrase .assignment) inside values) (short : inside.length ≤ limit)
    (enough : inside.length ≤ fuel) (isClosing : closing.kind = .rightParen) :
    (arguments fuel expression).Reads (inside ++ closing :: rest) values (closing :: rest) := by
  rw [arguments, Parser.reads_bind]
  cases derived with
  | none =>
    exact ⟨true, _, Parser.reads_nextIs.mpr ⟨by simp [isClosing], rfl⟩,
      Parser.reads_pure.mpr ⟨rfl, rfl⟩⟩
  | some items few =>
    obtain ⟨first, others, same, kind⟩ := items.head Phrase.head
    refine ⟨false, _, Parser.reads_nextIs.mpr ⟨?_, rfl⟩, ?_⟩
    -- No argument begins with the parenthesis that would end an empty list.
    · subst same
      cases rightParen : first.kind <;> simp_all [Level.starters]
    · exact complete.separated (by decide) Phrase.length_pos items short enough few
        (by simp [isClosing, Level.extending])

theorem reads_of_extendCall (complete : expression.CompleteFor limit .assignment)
    (bound : limit < fuel) {used : List Token} {callee : Expr} (derived : Phrase .call used callee)
    (short : used.length ≤ limit + 1) {rest : List Token} :
    ∃ left, fuel < left + used.length ∧ ∀ {value : Expr} {behind : List Token},
      (extendCall expression left callee).Reads rest value behind →
      (call fuel expression).Reads (used ++ rest) value behind := by
  -- The derivation ends with the last call, the parser begins with the first: what is in
  -- front of the last call is a shorter phrase of the same kind.
  obtain ⟨size, fits⟩ : ∃ size, used.length ≤ size := ⟨_, Nat.le_refl _⟩
  induction size generalizing used callee rest with
  | zero => exact absurd derived.length_pos (by omega)
  | succ size ih =>
    cases derived with
    | @call opening closing tokens inside callee arguments derived isOpening listed isClosing =>
      simp only [List.length_append, List.length_cons, List.length_nil] at short fits
      have positive := derived.length_pos
      obtain ⟨left, enough, goesOn⟩ :
          ∃ left, fuel < left + tokens.length ∧ ∀ {value : Expr} {behind : List Token},
            (extendCall expression left callee).Reads (opening :: inside ++ closing :: rest) value
              behind →
            (call fuel expression).Reads (tokens ++ (opening :: inside ++ closing :: rest)) value
              behind :=
        ih derived (by omega) (by omega)
      obtain ⟨left, rfl⟩ : ∃ less, left = less + 1 := ⟨left - 1, by omega⟩
      refine ⟨left, by simp; omega, fun {value behind} reads => ?_⟩
      have readArguments : (ExprParser.arguments left expression).Reads (inside ++ closing :: rest)
          arguments (closing :: rest) :=
        arguments_complete complete listed (by omega) (by omega) isClosing
      have extended : (extendCall expression (left + 1) callee).Reads
          (opening :: inside ++ closing :: rest) value behind := by
        rw [extendCall, Parser.reads_accept?_bind]
        refine .inr ⟨opening, _, rfl, List.mem_singleton.mpr isOpening, ?_⟩
        refine Parser.reads_bind.mpr ⟨arguments, _, readArguments, ?_⟩
        exact Parser.reads_bind.mpr ⟨closing, rest, Parser.reads_expect.mpr ⟨rfl, isClosing⟩, reads⟩
      simpa using goesOn extended
    | binary _ isOperator => simp [Level.operators] at isOperator
    | tighter isInner derived =>
      cases isInner
      have positive := derived.length_pos
      refine ⟨fuel, by omega, fun reads => ?_⟩
      have readCallee :=
        primary_complete complete _ _ rest derived short (by simp [Level.extending, Stops])
      rw [call, Parser.reads_bind]
      exact ⟨_, _, readCallee, reads⟩

theorem call_complete (complete : expression.CompleteFor limit .assignment) (bound : limit < fuel) :
    (call fuel expression).CompleteFor (limit + 1) .call := by
  intro used value rest derived short stops
  obtain ⟨left, enough, reads⟩ := reads_of_extendCall complete bound derived short
  obtain ⟨left, rfl⟩ : ∃ less, left = less + 1 := ⟨left - 1, by omega⟩
  apply reads
  rw [extendCall, Parser.reads_accept?_bind]
  exact .inl ⟨stops, Parser.reads_pure.mpr ⟨rfl, rfl⟩⟩

theorem unary_complete {operand : Parser Expr} (complete : operand.CompleteFor limit .call) :
    (unary operand).CompleteFor limit .unary := by
  intro used
  induction used with
  | nil =>
    intro value rest derived
    exact absurd derived.length_pos (by simp)
  | cons token tokens ih =>
    intro value rest derived short stops
    rcases derived.unary_cases with ⟨operand, rfl, isOperator, derived⟩ | ⟨notOperator, derived⟩
    · have readOperand := ih _ rest derived (by simp at short; omega) stops
      rw [Parser.Reads, List.cons_append, unary, if_pos isOperator]
      exact Parsed.bind_eq_ok_nil.mpr ⟨_, _, readOperand, rfl⟩
    · rw [Parser.Reads, List.cons_append, unary, if_neg notOperator]
      exact complete _ _ rest derived short stops

end ExprParser

namespace Tier.Implements

variable {tier : Tier} {level inner : Level} {operand : Parser Expr} {fuel limit : Nat}

theorem reads_of_extend (same : tier.Implements level inner)
    (complete : operand.CompleteFor limit inner) (bound : limit ≤ fuel) {used : List Token}
    {expr : Expr} (derived : Phrase level used expr) (short : used.length ≤ limit)
    {rest : List Token} (stops : Stops inner.extending rest) :
    ∃ left, fuel < left + used.length ∧ ∀ {value : Expr} {behind : List Token},
      (tier.extend operand left expr).Reads rest value behind →
      (tier.parser fuel operand).Reads (used ++ rest) value behind := by
  -- Operators of a tier associate to the left, so the derivation ends with the last one,
  -- where the parser begins with the first.
  obtain ⟨size, fits⟩ : ∃ size, used.length ≤ size := ⟨_, Nat.le_refl _⟩
  induction size generalizing used expr rest with
  | zero => exact absurd derived.length_pos (by omega)
  | succ size ih =>
    cases derived with
    | @binary _ tighter operator before behind left right isInner isOperator derivedLeft
        derivedRight =>
      obtain rfl : inner = tighter := Option.some.inj (same.inner.symm.trans isInner)
      simp only [List.length_append, List.length_cons] at short fits
      have positive := derivedLeft.length_pos
      have notExtending := Level.not_extending_of_operator isInner isOperator
      obtain ⟨more, enough, goesOn⟩ :
          ∃ more, fuel < more + before.length ∧ ∀ {value : Expr} {after : List Token},
            (tier.extend operand more left).Reads (operator :: behind ++ rest) value after →
            (tier.parser fuel operand).Reads (before ++ (operator :: behind ++ rest)) value after :=
        ih derivedLeft (by omega) (stops_cons.mpr notExtending) (by omega)
      obtain ⟨more, rfl⟩ : ∃ less, more = less + 1 := ⟨more - 1, by omega⟩
      refine ⟨more, by simp; omega, fun {value after} reads => ?_⟩
      have readRight := complete _ _ rest derivedRight (by omega) stops
      have extended : (tier.extend operand (more + 1) left).Reads
          (operator :: behind ++ rest) value after := by
        rw [Tier.extend, Parser.reads_accept?_bind, same.operators, same.build]
        refine .inr ⟨operator, _, rfl, isOperator, ?_⟩
        exact Parser.reads_bind.mpr ⟨right, rest, readRight, reads⟩
      simpa using goesOn extended
    | tighter isInner derived =>
      have positive := derived.length_pos
      cases Option.some.inj (same.inner.symm.trans isInner)
      refine ⟨fuel, by omega, fun reads => ?_⟩
      rw [Tier.parser, Parser.reads_bind]
      exact ⟨_, rest, complete _ _ rest derived short stops, reads⟩
    | constant | name | group | call | unary | assign => exact absurd rfl same.binary

theorem parser_complete (same : tier.Implements level inner)
    (complete : operand.CompleteFor limit inner) (bound : limit ≤ fuel) :
    (tier.parser fuel operand).CompleteFor limit level := by
  intro used value rest derived short stops
  obtain ⟨left, enough, reads⟩ := same.reads_of_extend complete bound derived short
    (stops.mono (Level.extending_subset same.inner))
  obtain ⟨left, rfl⟩ : ∃ less, left = less + 1 := ⟨left - 1, by omega⟩
  apply reads
  rw [Tier.extend, Parser.reads_accept?_bind, same.operators]
  exact .inl ⟨stops.mono level.operators_subset, Parser.reads_pure.mpr ⟨rfl, rfl⟩⟩

end Tier.Implements

namespace ExprParser

variable {expression : Parser Expr} {fuel limit : Nat}

theorem operation_complete (complete : expression.CompleteFor limit .assignment)
    (bound : limit < fuel) : (operation fuel expression).CompleteFor (limit + 1) .disjunction := by
  have factor := factor_implements.parser_complete (unary_complete (call_complete complete bound)) bound
  have comparison := comparison_implements.parser_complete
    (term_implements.parser_complete factor bound) bound
  have conjunction := conjunction_implements.parser_complete
    (equality_implements.parser_complete comparison bound) bound
  exact disjunction_implements.parser_complete conjunction bound

theorem assignment_complete (complete : expression.CompleteFor limit .assignment)
    (bound : limit < fuel) : (assignment fuel expression).CompleteFor (limit + 1) .assignment := by
  intro used value rest derived short stops
  have operation := operation_complete complete bound
  rw [assignment, Parser.reads_bind]
  cases derived with
  | @assign name equals tokens assigned isName isEqual derivedValue =>
    simp only [List.length_cons] at short
    -- The target is read as an operation first, and `=` does not go on with that.
    have readTarget := operation [name] _ (equals :: tokens ++ rest)
      (.of_primary (.name isName)) (by simp) (by simp [isEqual, Level.extending])
    have readValue := complete _ _ rest derivedValue (by omega) stops
    refine ⟨_, _, readTarget, ?_⟩
    rw [Parser.reads_accept?_bind]
    refine .inr ⟨equals, _, rfl, List.mem_singleton.mpr isEqual, ?_⟩
    exact Parser.reads_bind.mpr ⟨assigned, rest, readValue, Parser.reads_pure.mpr ⟨rfl, rfl⟩⟩
  | binary _ isOperator => simp [Level.operators] at isOperator
  | tighter isInner derived =>
    cases isInner
    have readWhole := operation _ _ rest derived short (stops.mono (Level.extending_subset rfl))
    refine ⟨_, _, readWhole, ?_⟩
    rw [Parser.reads_accept?_bind]
    exact .inl ⟨stops.mono (by simp [Level.extending]), Parser.reads_pure.mpr ⟨rfl, rfl⟩⟩

/-- An expression with less tokens than the fuel is read in full. -/
theorem expression_complete :
    ∀ fuel : Nat, (ExprParser.expression (fuel + 1)).CompleteFor fuel .assignment
  | 0 => fun _ _ _ derived short => absurd derived.length_pos (by omega)
  | fuel + 1 => assignment_complete (expression_complete fuel) (Nat.lt_succ_self fuel)

end ExprParser

end Lox.Syntax
