import Lox.Proofs.Cursor.Grammar
import Lox.Proofs.Cursor.Following

/-! Expressions read with a cursor.

Rule by rule the cursor follows the parser of expressions.
-/

set_option autoImplicit false

namespace Lox.Syntax.Cursor

open Token (Kind)

variable {front : List Token} {last : Token} (closes : Closes front last)
include closes

section
variable {reading : Reading Expr} {parser : Parser Expr} (follows : Follows front last reading parser)
include follows

theorem follows_extend (tier : Tier) : ∀ (fuel : Nat) (left : Expr),
    Follows front last (Reading.extend tier reading fuel left) (tier.extend parser fuel left)
  | 0, _ => .exhausted
  | fuel + 1, left => by
    refine .accept closes (.pure left) fun operator _ => .previous ?_
    exact follows.bind fun right => follows_extend tier fuel (tier.build left operator right)

theorem follows_binary (fuel : Nat) (tier : Tier) :
    Follows front last (Reading.binary fuel reading tier) (tier.parser fuel parser) :=
  follows.bind fun first => follows_extend closes follows tier fuel first

theorem follows_grouping : Follows front last
    (do
      let inner ← reading
      let _ ← Reading.consume .rightParen .parenAfterExpression
      return Expr.grouping inner)
    (do
      let inner ← parser
      let _ ← Parser.expect .rightParen .parenAfterExpression
      return Expr.grouping inner) :=
  follows.bind fun inner =>
    (Follows.consume closes .rightParen .parenAfterExpression).bind fun _ => .pure (Expr.grouping inner)

theorem follows_primary :
    Follows front last (Reading.primary reading) (ExprParser.primary parser) := by
  intro cursor rest stands
  cases rest with
  | nil =>
    simp only [Reading.primary, Reading.choice_nil closes stands]
    exact Follows.fail .expression cursor [] stands
  | cons token rest =>
    have taken (value : Expr) : Agrees front last cursor (.done value cursor.next) (.ok value rest []) :=
      .silent stands.next rfl
    -- The parser asks for the kind once, the cursor for one kind after the other.
    rw [ExprParser.primary]
    split
    case h_7 same =>
      simp only [Reading.primary, Reading.choice_cons closes stands, same, List.mem_cons,
        List.not_mem_nil, reduceCtorEq, or_false, if_true, if_false]
      exact (follows_grouping closes follows _ rest stands.next).of_next
    case h_8 noFalse noTrue noNil noNumber noString noName noParen =>
      simp only [Reading.primary, Reading.choice_cons closes stands, List.mem_cons,
        List.not_mem_nil, or_false, if_neg noFalse, if_neg noTrue, if_neg noNil,
        if_neg (not_or.mpr ⟨noNumber, noString⟩), if_neg noName, if_neg noParen]
      exact Follows.fail .expression cursor _ stands
    all_goals next same =>
      simpa [Reading.primary, Reading.accept_cons closes stands, Reading.previous_next stands, same]
        using taken _

theorem follows_arguments (fuel : Nat) :
    Follows front last (Reading.arguments fuel reading) (ExprParser.arguments fuel parser) :=
  (Follows.check closes .rightParen).bind fun _ =>
    .ite (.pure []) (.items closes follows .tooManyArguments fuel 0)

theorem follows_calls : ∀ (fuel : Nat) (callee : Expr),
    Follows front last (Reading.calls reading fuel callee) (ExprParser.extendCall parser fuel callee)
  | 0, _ => .exhausted
  | fuel + 1, callee => by
    refine .accept closes (.pure callee) fun _ _ => .of_follows ?_
    simp only [Reading.finishCall, bind_assoc, pure_bind]
    exact (follows_arguments closes follows fuel).bind fun arguments =>
      (Follows.consume closes .rightParen .parenAfterArguments).bind fun paren =>
        follows_calls fuel (.call callee paren arguments)

theorem follows_call (fuel : Nat) :
    Follows front last (Reading.call fuel reading) (ExprParser.call fuel parser) :=
  (follows_primary closes follows).bind fun callee => follows_calls closes follows fuel callee

theorem agrees_unary {fuel : Nat} {cursor : Cursor} {rest : List Token} (enough : rest.length < fuel)
    (stands : Stands front cursor rest) : Agrees front last cursor
      (Reading.unary reading fuel (front ++ [last]) cursor) (ExprParser.unary parser rest) := by
  -- Not a combinator: the parser goes by the tokens, and the cursor has only its fuel.
  induction rest generalizing fuel cursor with
  | nil =>
    obtain ⟨less, rfl⟩ := Nat.exists_eq_add_one.mpr enough
    rw [Reading.unary, Reading.choice_nil closes stands]
    exact follows cursor [] stands
  | cons token rest again =>
    obtain ⟨less, rfl⟩ := Nat.exists_eq_add_one.mpr (Nat.zero_lt_of_lt enough)
    rw [Reading.unary, Reading.choice_cons closes stands, ExprParser.unary]
    simp only [List.mem_cons, List.not_mem_nil, or_false]
    split
    next =>
      have inner := again (Nat.lt_of_succ_lt_succ enough) stands.next
      rw [bind_apply, Reading.previous_next stands]
      exact (inner.bind fun right _ _ stands => Follows.pure (Expr.unary token right) _ _ stands).of_next
    next => exact follows cursor _ stands

theorem follows_operation (fuel : Nat) :
    Follows front last (Reading.operation fuel reading) (ExprParser.operation fuel parser) := by
  have prefixed : Follows front last
      (Reading.unary (Reading.call fuel reading) (front ++ [last]).length)
      (ExprParser.unary (ExprParser.call fuel parser)) := fun cursor rest stands =>
    agrees_unary closes (follows_call closes follows fuel) stands.length_lt stands
  have tiered : Follows front last
      (Tier.all.foldl (Reading.binary fuel)
        (Reading.unary (Reading.call fuel reading) (front ++ [last]).length))
      (Tier.all.foldl (Tier.parser fuel) (ExprParser.unary (ExprParser.call fuel parser))) :=
    List.foldl_rel prefixed fun tier _ _ _ follows => follows_binary closes follows fuel tier
  intro cursor rest stands
  rw [Reading.operation, ExprParser.operation]
  exact tiered cursor rest stands

theorem follows_assignment (fuel : Nat) :
    Follows front last (Reading.assignment fuel reading) (ExprParser.assignment fuel parser) := by
  refine (follows_operation closes follows fuel).bind fun target => ?_
  refine .accept closes (.pure target) fun equals _ => .previous ?_
  refine follows.bind fun value => ?_
  cases target
  case reference => exact .pure _
  all_goals exact (Follows.note equals .assignmentTarget).bind fun _ => .pure _

end

theorem follows_expression : ∀ fuel : Nat,
    Follows front last (Reading.expression fuel) (ExprParser.expression fuel)
  | 0 => .exhausted
  | fuel + 1 => follows_assignment closes (follows_expression fuel) fuel

end Lox.Syntax.Cursor
