import Lox.Proofs.Grammar.Phrase
import Lox.Proofs.Grammar.Reading
import Lox.Syntax.ExprParser

/-! An expression that is read without errors is a phrase of the grammar.

Each rule of the parser is sound if the parser for the expressions inside it is;
the fuel of the whole is what the induction is on.
-/

set_option autoImplicit false

namespace Lox.Syntax

open Grammar

section
variable {α : Type} {item : Parser α} {derives : List Token → α → Prop}

theorem Parser.Sound.separated (sound : item.Sound derives) {tooMany : SyntaxError.Cause} :
    ∀ {fuel room : Nat} {tokens rest : List Token} {items : List α},
      (Parser.separated item tooMany fuel room).Reads tokens items rest →
      ∃ used, tokens = used ++ rest ∧ Separated derives used items ∧ items.length ≤ room
  | 0, _, _, _, _, reads => absurd reads Parser.not_reads_exhausted
  | fuel + 1, 0, tokens, rest, items, reads => by
    rw [Parser.separated, if_pos rfl, Parser.reads_bind] at reads
    obtain ⟨done, middle, noted, _⟩ := reads
    exact absurd noted Parser.not_reads_note
  | fuel + 1, room + 1, tokens, rest, items, reads => by
    rw [Parser.separated, if_neg (Nat.succ_ne_zero room), Parser.reads_bind] at reads
    obtain ⟨first, middle, readFirst, reads⟩ := reads
    obtain ⟨used, rfl, derived⟩ := sound _ _ _ readFirst
    rw [Parser.reads_accept?_bind] at reads
    rcases reads with ⟨_, reads⟩ | ⟨comma, others, rfl, isComma, reads⟩
    · obtain ⟨rfl, rfl⟩ := Parser.reads_pure.mp reads
      exact ⟨used, rfl, .last derived, by simp⟩
    · obtain ⟨more, left, readMore, reads⟩ := Parser.reads_bind.mp reads
      obtain ⟨rfl, rfl⟩ := Parser.reads_pure.mp reads
      obtain ⟨usedMore, rfl, derivedMore, short⟩ := Sound.separated sound readMore
      refine ⟨used ++ comma :: usedMore, by simp,
        .more derived (List.mem_singleton.mp isComma) derivedMore, ?_⟩
      simpa using short

end

namespace ExprParser

variable {expression : Parser Expr}

theorem primary_sound (sound : expression.Sound (Phrase .assignment)) :
    (primary expression).Sound (Phrase .primary) := by
  intro tokens value rest reads
  cases tokens with
  | nil => exact absurd reads Parser.not_reads_stop
  | cons token tail =>
    rw [Parser.Reads, primary] at reads
    split at reads
    case h_7 kind =>
      obtain ⟨inner, middle, readInner, reads⟩ := Parser.reads_bind.mp reads
      obtain ⟨closing, left, readClosing, reads⟩ := Parser.reads_bind.mp reads
      obtain ⟨rfl, rfl⟩ := Parser.reads_pure.mp reads
      obtain ⟨rfl, isClosing⟩ := Parser.reads_expect.mp readClosing
      obtain ⟨used, rfl, derived⟩ := sound _ _ _ readInner
      exact ⟨token :: used ++ [closing], by simp, .group kind derived isClosing⟩
    case h_8 => exact absurd reads Parser.not_reads_stop
    case h_6 kind =>
      simp only [Parsed.ok.injEq] at reads
      obtain ⟨rfl, rfl, _⟩ := reads
      exact ⟨[token], rfl, .name kind⟩
    all_goals
      rename_i kind
      simp only [Parsed.ok.injEq] at reads
      obtain ⟨rfl, rfl, _⟩ := reads
      exact ⟨[token], rfl, .constant (by simp [constant?, kind])⟩

theorem arguments_sound (sound : expression.Sound (Phrase .assignment)) {fuel : Nat} :
    (arguments fuel expression).Sound (Listed (Phrase .assignment)) := by
  intro tokens values rest reads
  rw [arguments, Parser.reads_bind] at reads
  obtain ⟨next, middle, readNext, reads⟩ := reads
  obtain ⟨_, rfl⟩ := Parser.reads_nextIs.mp readNext
  cases next with
  | true =>
    obtain ⟨rfl, rfl⟩ := Parser.reads_pure.mp reads
    exact ⟨[], rfl, .none⟩
  | false =>
    obtain ⟨used, rfl, derived, short⟩ := sound.separated reads
    exact ⟨used, rfl, .some derived short⟩

theorem extendCall_sound (sound : expression.Sound (Phrase .assignment)) :
    ∀ {fuel : Nat} {callee value : Expr} {before tokens rest : List Token},
      Phrase .call before callee → (extendCall expression fuel callee).Reads tokens value rest →
      ∃ used, tokens = used ++ rest ∧ Phrase .call (before ++ used) value
  | 0, _, _, _, _, _, _, reads => absurd reads Parser.not_reads_exhausted
  | fuel + 1, callee, value, before, tokens, rest, derived, reads => by
    rw [extendCall, Parser.reads_accept?_bind] at reads
    rcases reads with ⟨_, reads⟩ | ⟨opening, middle, rfl, isOpening, reads⟩
    · obtain ⟨rfl, rfl⟩ := Parser.reads_pure.mp reads
      exact ⟨[], rfl, by simpa using derived⟩
    · obtain ⟨arguments, inside, readArguments, readsInside⟩ := Parser.reads_bind.mp reads
      obtain ⟨closing, behind, readClosing, readsBehind⟩ := Parser.reads_bind.mp readsInside
      obtain ⟨rfl, isClosing⟩ := Parser.reads_expect.mp readClosing
      obtain ⟨listed, rfl, derivedArguments⟩ := arguments_sound sound _ _ _ readArguments
      -- What was read before is a phrase with this call as well.
      have called := Phrase.call derived (List.mem_singleton.mp isOpening) derivedArguments isClosing
      obtain ⟨used, rfl, whole⟩ := extendCall_sound sound called readsBehind
      exact ⟨opening :: listed ++ closing :: used, by simp, by simpa using whole⟩

theorem call_sound (sound : expression.Sound (Phrase .assignment)) {fuel : Nat} :
    (call fuel expression).Sound (Phrase .call) := by
  intro tokens value rest reads
  rw [call, Parser.reads_bind] at reads
  obtain ⟨callee, middle, readCallee, reads⟩ := reads
  obtain ⟨used, rfl, derived⟩ := primary_sound sound _ _ _ readCallee
  obtain ⟨more, rfl, whole⟩ := extendCall_sound sound (.tighter rfl derived) reads
  exact ⟨used ++ more, by simp, whole⟩

theorem unary_sound {operand : Parser Expr} (sound : operand.Sound (Phrase .call)) :
    (unary operand).Sound (Phrase .unary) := by
  intro tokens
  induction tokens with
  | nil =>
    intro value rest reads
    obtain ⟨used, same, derived⟩ := sound _ _ _ reads
    exact ⟨used, same, .tighter rfl derived⟩
  | cons token tail ih =>
    intro value rest reads
    rw [Parser.Reads, unary] at reads
    split at reads
    · rename_i isOperator
      obtain ⟨inner, middle, readInner, same⟩ := Parsed.bind_eq_ok_nil.mp reads
      simp only [Parsed.ok.injEq] at same
      obtain ⟨rfl, rfl, _⟩ := same
      obtain ⟨used, rfl, derived⟩ := ih _ _ readInner
      exact ⟨token :: used, rfl, .unary isOperator derived⟩
    · obtain ⟨used, same, derived⟩ := sound _ _ _ reads
      exact ⟨used, same, .tighter rfl derived⟩

end ExprParser

/-- A tier of the parser has the operators and the trees of a precedence. -/
structure Tier.Implements (tier : Tier) (level inner : Level) : Prop where
  inner : level.inner? = some inner
  binary : level.operators ≠ []
  operators : tier.operators = level.operators
  build : tier.build = level.combine

namespace Tier.Implements

variable {tier : Tier} {level inner : Level} {operand : Parser Expr}

theorem extend_sound (same : tier.Implements level inner) (sound : operand.Sound (Phrase inner)) :
    ∀ {fuel : Nat} {left value : Expr} {before tokens rest : List Token},
      Phrase level before left → (tier.extend operand fuel left).Reads tokens value rest →
      ∃ used, tokens = used ++ rest ∧ Phrase level (before ++ used) value
  | 0, _, _, _, _, _, _, reads => absurd reads Parser.not_reads_exhausted
  | fuel + 1, left, value, before, tokens, rest, derived, reads => by
    rw [Tier.extend, Parser.reads_accept?_bind] at reads
    rcases reads with ⟨_, reads⟩ | ⟨operator, middle, rfl, isOperator, reads⟩
    · obtain ⟨rfl, rfl⟩ := Parser.reads_pure.mp reads
      exact ⟨[], rfl, by simpa using derived⟩
    · obtain ⟨right, behind, readRight, readsBehind⟩ := Parser.reads_bind.mp reads
      obtain ⟨used, rfl, derivedRight⟩ := sound _ _ _ readRight
      rw [same.operators] at isOperator
      rw [same.build] at readsBehind
      have combined := Phrase.binary same.inner isOperator derived derivedRight
      obtain ⟨more, rfl, whole⟩ := extend_sound same sound combined readsBehind
      exact ⟨operator :: used ++ more, by simp, by simpa using whole⟩

theorem parser_sound (same : tier.Implements level inner) (sound : operand.Sound (Phrase inner))
    {fuel : Nat} : (tier.parser fuel operand).Sound (Phrase level) := by
  intro tokens value rest reads
  rw [Tier.parser, Parser.reads_bind] at reads
  obtain ⟨first, middle, readFirst, reads⟩ := reads
  obtain ⟨used, rfl, derived⟩ := sound _ _ _ readFirst
  obtain ⟨more, rfl, whole⟩ := same.extend_sound sound (.tighter same.inner derived) reads
  exact ⟨used ++ more, by simp, whole⟩

end Tier.Implements

theorem factor_implements : Tier.Implements ⟨[.slash, .star], .binary⟩ .factor .unary :=
  ⟨rfl, nofun, rfl, rfl⟩

theorem term_implements : Tier.Implements ⟨[.minus, .plus], .binary⟩ .term .factor :=
  ⟨rfl, nofun, rfl, rfl⟩

theorem comparison_implements :
    Tier.Implements ⟨[.greater, .greaterEqual, .less, .lessEqual], .binary⟩ .comparison .term :=
  ⟨rfl, nofun, rfl, rfl⟩

theorem equality_implements :
    Tier.Implements ⟨[.bangEqual, .equalEqual], .binary⟩ .equality .comparison :=
  ⟨rfl, nofun, rfl, rfl⟩

theorem conjunction_implements : Tier.Implements ⟨[.andWord], .logical⟩ .conjunction .equality :=
  ⟨rfl, nofun, rfl, rfl⟩

theorem disjunction_implements :
    Tier.Implements ⟨[.orWord], .logical⟩ .disjunction .conjunction :=
  ⟨rfl, nofun, rfl, rfl⟩

namespace ExprParser

variable {expression : Parser Expr}

theorem operation_sound (sound : expression.Sound (Phrase .assignment)) {fuel : Nat} :
    (operation fuel expression).Sound (Phrase .disjunction) :=
  disjunction_implements.parser_sound <| conjunction_implements.parser_sound <|
    equality_implements.parser_sound <| comparison_implements.parser_sound <|
    term_implements.parser_sound <| factor_implements.parser_sound <|
    unary_sound (call_sound sound)

theorem assignment_sound (sound : expression.Sound (Phrase .assignment)) {fuel : Nat} :
    (assignment fuel expression).Sound (Phrase .assignment) := by
  intro tokens value rest reads
  rw [assignment, Parser.reads_bind] at reads
  obtain ⟨target, middle, readTarget, reads⟩ := reads
  obtain ⟨used, rfl, derived⟩ := operation_sound sound _ _ _ readTarget
  rw [Parser.reads_accept?_bind] at reads
  rcases reads with ⟨_, reads⟩ | ⟨equals, behind, rfl, isEqual, reads⟩
  · obtain ⟨rfl, rfl⟩ := Parser.reads_pure.mp reads
    exact ⟨used, rfl, .tighter rfl derived⟩
  · obtain ⟨assigned, left, readAssigned, readsTarget⟩ := Parser.reads_bind.mp reads
    obtain ⟨more, rfl, derivedValue⟩ := sound _ _ _ readAssigned
    split at readsTarget
    · obtain ⟨rfl, rfl⟩ := Parser.reads_pure.mp readsTarget
      -- A phrase whose tree is a name is that name alone.
      obtain ⟨rfl, isName⟩ := derived.eq_name rfl
      exact ⟨_ :: equals :: more, rfl, .assign isName (List.mem_singleton.mp isEqual) derivedValue⟩
    -- Any other target leaves an error, so this was not read without one.
    · obtain ⟨done, start, noted, _⟩ := Parser.reads_bind.mp readsTarget
      exact absurd noted Parser.not_reads_noteAt

/-- Whatever the fuel, what is read without errors is an expression of the grammar. -/
theorem expression_sound :
    ∀ fuel : Nat, (ExprParser.expression fuel).Sound (Phrase .assignment)
  | 0 => fun _ _ _ reads => absurd reads Parser.not_reads_exhausted
  | fuel + 1 => assignment_sound (expression_sound fuel)

end ExprParser

end Lox.Syntax
