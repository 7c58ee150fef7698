import Lox.Proofs.Grammar.StmtCompleteness

/-! Expressions one behind the other.

Two expressions without anything between them are one if the second begins with a minus or
with a parenthesis: then it is the rest of a difference, or the arguments of a call.
-/

set_option autoImplicit false

namespace Lox

open Token (Kind)

namespace Grammar

def Level.Takes (level : Level) (more : List Token) : Prop :=
  ∀ used left, Phrase level used left → ∃ whole, Phrase level (used ++ more) whole

namespace Level

theorem Takes.outer {level inner : Level} {more : List Token} (tighter : level.inner? = some inner)
    (apart : level ≠ .call) (takes : inner.Takes more) : level.Takes more
  | _, _, .binary isInner isOperator left right => by
    cases tighter.symm.trans isInner
    obtain ⟨whole, joined⟩ := takes _ _ right
    exact ⟨_, by simpa using Phrase.binary isInner isOperator left joined⟩
  | _, _, .unary isOperator operand => by
    obtain ⟨whole, joined⟩ := takes.outer tighter apart _ _ operand
    exact ⟨_, .unary isOperator joined⟩
  | _, _, .assign isName isEqual value => by
    obtain ⟨whole, joined⟩ := takes.outer tighter apart _ _ value
    exact ⟨_, .assign isName isEqual joined⟩
  | _, _, .tighter isInner derived => by
    cases tighter.symm.trans isInner
    obtain ⟨whole, joined⟩ := takes _ _ derived
    exact ⟨_, .tighter tighter joined⟩
  | _, _, .call .. => absurd rfl apart
  | _, _, .constant _ | _, _, .name _ | _, _, .group .. => nomatch tighter

theorem Takes.binary {level inner : Level} {before behind : List Token} {operator : Token}
    {right : Expr} (tighter : level.inner? = some inner) (isOperator : operator.kind ∈ level.operators)
    (takes : level.Takes before) (derived : Phrase inner behind right) :
    level.Takes (before ++ operator :: behind) := by
  intro used left first
  obtain ⟨whole, joined⟩ := takes used left first
  exact ⟨_, by simpa using Phrase.binary tighter isOperator joined derived⟩

end Level

namespace Phrase

theorem call_takes_group {tokens : List Token} {expr : Expr} (derived : Phrase .primary tokens expr)
    (isParen : ∀ first ∈ tokens.head?, first.kind = .leftParen) : Level.call.Takes tokens := by
  intro used left callee
  cases derived with
  | @constant token value isConstant => simp [constant?, isParen token rfl] at isConstant
  | @name token isName => cases isName.symm.trans (isParen token rfl)
  | group isOpening inner isClosing =>
    have listed := Listed.some (.last inner) (by simp [listLimit])
    exact ⟨_, by simpa using Phrase.call callee isOpening listed isClosing⟩
  | binary isInner => cases isInner
  | tighter isInner => cases isInner

theorem head_left {level : Level} {before others : List Token} {expr : Expr} {kind : Kind}
    (derived : Phrase level before expr)
    (begins : ∀ first ∈ (before ++ others).head?, first.kind = kind) :
    ∀ first ∈ before.head?, first.kind = kind := by
  obtain ⟨first, tail, rfl, _⟩ := derived.head
  exact begins

theorem takes_of_paren : ∀ {level : Level} {tokens : List Token} {expr : Expr},
    Phrase level tokens expr → (∀ first ∈ tokens.head?, first.kind = .leftParen) →
    level ≠ .primary → level.Takes tokens
  | _, _, _, .constant _, _, apart | _, _, _, .name _, _, apart | _, _, _, .group .., _, apart =>
    absurd rfl apart
  | _, _, _, .call callee isOpening listed isClosing, isParen, _ => by
    intro used left first
    rw [List.append_assoc] at isParen
    obtain ⟨whole, joined⟩ := callee.takes_of_paren (callee.head_left isParen) nofun _ _ first
    exact ⟨_, by simpa using Phrase.call joined isOpening listed isClosing⟩
  | _, _, _, .unary isOperator _, isParen, _ => by
    rcases isOperator with isOperator | isOperator <;> cases isOperator.symm.trans (isParen _ rfl)
  | _, _, _, .binary isInner isOperator left right, isParen, apart =>
    (left.takes_of_paren (left.head_left isParen) apart).binary isInner isOperator right
  | _, _, _, .assign isName _ _, isParen, _ => by cases isName.symm.trans (isParen _ rfl)
  | _, _, _, @tighter level inner _ _ isInner derived, isParen, _ => by
    by_cases primary : inner = .primary
    · subst primary
      obtain rfl : level = .call := by cases level <;> cases isInner; rfl
      exact derived.call_takes_group isParen
    · refine (derived.takes_of_paren isParen primary).outer isInner ?_
      rintro rfl
      exact primary (Option.some.inj isInner).symm

theorem factor_of_minus : ∀ {tokens : List Token} {expr : Expr}, Phrase .factor tokens expr →
    (∀ first ∈ tokens.head?, first.kind = .minus) →
    ∃ minus tail operand, tokens = minus :: tail ∧ minus.kind = .minus ∧ Phrase .factor tail operand
  | _, _, .binary isInner isOperator left right, isMinus => by
    obtain ⟨minus, tail, operand, rfl, isMinus, derived⟩ :=
      left.factor_of_minus (left.head_left isMinus)
    exact ⟨minus, _, _, rfl, isMinus, .binary isInner isOperator derived right⟩
  | _, _, .tighter isInner derived, isMinus => by
    cases isInner
    obtain ⟨first, tail, rfl, _⟩ := derived.head
    rcases derived.unary_cases with ⟨operand, _, _, derived⟩ | ⟨notOperator, _⟩
    · exact ⟨first, tail, operand, rfl, isMinus first rfl, .tighter rfl derived⟩
    · exact absurd (.inr (isMinus first rfl)) notOperator

/-- Where an inner phrase goes on, or is an operand of a product, so does the outer one. -/
theorem takes_of_minus_inner {level inner : Level} {tokens : List Token} {expr : Expr}
    (isInner : level.inner? = some inner) (derived : Phrase inner tokens expr)
    (isMinus : ∀ first ∈ tokens.head?, first.kind = .minus)
    (loose : level ∉ [.primary, .call, .unary, .factor])
    (goesOn : inner ∉ [.primary, .call, .unary, .factor] → inner.Takes tokens) :
    level.Takes tokens := by
  by_cases factor : inner = .factor
  -- What stands before it is the first operand of a difference.
  · subst factor
    obtain rfl : level = .term := by cases level <;> cases isInner; rfl
    obtain ⟨minus, tail, operand, rfl, isMinus, second⟩ := derived.factor_of_minus isMinus
    exact fun used left first => ⟨_, .binary rfl (by simp [Level.operators, isMinus]) first second⟩
  · have looseInner : inner ∉ [.primary, .call, .unary, .factor] := by
      cases level <;> cases isInner <;> simp_all
    refine (goesOn looseInner).outer isInner ?_
    rintro rfl
    exact loose (by decide)

/-- A phrase that begins with a minus goes on with any phrase of its precedence, as long as
that is no operand of a product. -/
theorem takes_of_minus : ∀ {level : Level} {tokens : List Token} {expr : Expr},
    Phrase level tokens expr → (∀ first ∈ tokens.head?, first.kind = .minus) →
    level ∉ [.primary, .call, .unary, .factor] → level.Takes tokens
  | _, _, _, .constant _, _, loose | _, _, _, .name _, _, loose | _, _, _, .group .., _, loose
  | _, _, _, .call .., _, loose | _, _, _, .unary .., _, loose => absurd (by decide) loose
  | _, _, _, .binary isInner isOperator left right, isMinus, loose =>
    (left.takes_of_minus (left.head_left isMinus) loose).binary isInner isOperator right
  | _, _, _, .assign isName _ _, isMinus, _ => by cases isName.symm.trans (isMinus _ rfl)
  | _, _, _, .tighter isInner derived, isMinus, loose =>
    takes_of_minus_inner isInner derived isMinus loose (derived.takes_of_minus isMinus)

/-- An expression goes on with any other one, unless the first token of that cannot. -/
theorem joins {used more : List Token} {left right : Expr} (first : Phrase .assignment used left)
    (second : Phrase .assignment more right)
    (extending : ∀ token ∈ more.head?, token.kind ∈ Level.assignment.extending) :
    ∃ whole, Phrase .assignment (used ++ more) whole := by
  obtain ⟨token, tail, rfl, isFirst⟩ := second.head
  have isExtending := extending token rfl
  by_cases isParen : token.kind = .leftParen
  · exact second.takes_of_paren (by simpa using isParen) nofun used left first
  · refine second.takes_of_minus ?_ (by decide) used left first
    cases kind : token.kind <;> simp_all [Level.starters, Level.extending]

end Phrase

end Grammar

end Lox
