import Lox.Proofs.Cursor.Following
import Lox.Proofs.Grammar.Fuel
import Lox.Proofs.Grammar.Progress

/-! Recovery with a cursor.

Behind an error the cursor moves over at least one token, and so there is one before it
whenever the recovery turns back. A declaration that began at a token ends further on,
whether it was parsed or passed over.
-/

set_option autoImplicit false

namespace Lox.Syntax.Cursor

open Token (Kind)

variable {α : Type} {front : List Token} {last : Token} (closes : Closes front last)
include closes

theorem skip_cons {cursor : Cursor} {token second : Token} {rest : List Token} (fuel : Nat)
    (stands : Stands front cursor (token :: second :: rest)) :
    Reading.skip (fuel + 1) (front ++ [last]) cursor.next =
      if token.kind = .semicolon ∨ second.kind ∈ StmtParser.starters then .done () cursor.next
      else Reading.skip fuel (front ++ [last]) cursor.next.next := by
  by_cases boundary : token.kind = .semicolon
  · simp [Reading.skip, Reading.atEnd_eq closes stands.next, Reading.previous_next stands, boundary]
  · by_cases starts : second.kind ∈ StmtParser.starters
    · simp [Reading.skip, Reading.atEnd_eq closes stands.next, Reading.previous_next stands,
        Reading.peek_eq stands.next, boundary, starts]
    · simp [Reading.skip, Reading.atEnd_eq closes stands.next, Reading.previous_next stands,
        Reading.peek_eq stands.next, Reading.advance_cons closes stands.next, boundary, starts]

theorem skip_atEnd {cursor : Cursor} {fuel : Nat} (stands : Stands front cursor []) (enough : 0 < fuel) :
    Reading.skip fuel (front ++ [last]) cursor = .done () cursor := by
  obtain ⟨less, rfl⟩ := Nat.exists_eq_add_one.mpr enough
  simp [Reading.skip, Reading.atEnd_eq closes stands]

theorem agrees_skip {fuel : Nat} {cursor : Cursor} {token : Token} {rest : List Token}
    (enough : rest.length < fuel) (stands : Stands front cursor (token :: rest)) :
    Agrees front last cursor (Reading.skip fuel (front ++ [last]) cursor.next)
      (.ok () (StmtParser.resumeAfter token rest) []) := by
  induction rest generalizing fuel cursor token with
  | nil =>
    rw [skip_atEnd closes stands.next enough, StmtParser.resumeAfter]
    exact .silent stands.next rfl
  | cons second rest again =>
    obtain ⟨less, rfl⟩ := Nat.exists_eq_add_one.mpr (Nat.zero_lt_of_lt enough)
    rw [skip_cons closes less stands, StmtParser.resumeAfter]
    split
    next => exact .silent stands.next rfl
    next => exact (again (Nat.lt_of_succ_lt_succ enough) stands.next).of_next

theorem advance_nil {cursor : Cursor} (stands : Stands front cursor []) (present : front ≠ []) :
    Reading.advance (front ++ [last]) cursor = .done (front.getLast present) cursor := by
  obtain ⟨position, same⟩ := Nat.exists_eq_add_one.mpr (List.length_pos_iff.mpr present)
  have atEnd : cursor.position = position + 1 := stands.length.trans same
  have found : (front ++ [last])[position]? = some (front.getLast present) := by
    rw [List.getElem?_append_left (same ▸ Nat.lt_add_one position),
      ← List.getLast?_eq_some_getLast present, List.getLast?_eq_getElem?, same]
    rfl
  simp [Reading.advance, Reading.atEnd_eq closes stands, Reading.previous, atEnd, found]

theorem follows_synchronize (present : front ≠ []) :
    Follows front last Reading.synchronize fun tokens => .ok () (StmtParser.resume tokens) [] := by
  intro cursor rest stands
  rw [Reading.synchronize, bind_apply]
  cases rest with
  | nil =>
    rw [advance_nil closes stands present, Step.done_bind, skip_atEnd closes stands stands.length_lt]
    exact .silent stands rfl
  | cons token rest =>
    have enough : rest.length < (front ++ [last]).length :=
      Nat.lt_trans (Nat.lt_succ_self _) stands.length_lt
    rw [Reading.advance_cons closes stands]
    exact agrees_skip closes enough stands

theorem follows_attempt {reading : Reading Stmt} {parser : Parser Stmt}
    (follows : Follows front last reading parser) (present : front ≠ []) :
    Follows front last (Reading.attempt reading Reading.synchronize) (StmtParser.recovering parser) := by
  intro cursor rest stands
  have agrees := follows cursor rest stands
  rw [Reading.attempt, StmtParser.recovering]
  generalize reading (front ++ [last]) cursor = step at agrees ⊢
  generalize parser rest = parsed at agrees ⊢
  cases agrees with
  | done stands same => exact .done stands same
  | @raised after rest earlier error stands same =>
    -- The recovery begins where the error was raised, behind the errors noted so far.
    have recovered := (follows_synchronize closes present after rest stands).bind
      fun _ => Follows.pure (none : Option Stmt)
    change Agrees front last cursor _ (.ok none (StmtParser.resume rest) (earlier ++ [error]))
    rw [← List.append_nil (earlier ++ [error])]
    exact recovered.after same
  | exhausted => exact .exhausted

omit closes in
theorem follows_spanned {reading : Reading α} {parser : Parser α}
    (follows : Follows front last reading parser)
    (advances : ∀ tokens value rest errors, tokens ≠ [] → parser tokens = .ok value rest errors →
      rest.length < tokens.length) : Follows front last (Reading.spanned reading) parser := by
  intro cursor rest stands
  have agrees := follows cursor rest stands
  rw [Reading.spanned]
  generalize answer : parser rest = parsed at agrees ⊢
  generalize reading (front ++ [last]) cursor = step at agrees ⊢
  cases agrees with
  | @done value after left errors further same =>
    refine .done ⟨further.rest, further.orderly.ascends, further.orderly.within, ?_⟩ same
    intro span member before
    rcases List.mem_cons.mp member with rfl | member
    · -- The span began at a token, so the parser had one to move over.
      have start : rest ≠ [] := by
        rintro rfl
        exact absurd stands.length (Nat.ne_of_lt before)
      have shorter := advances rest value left errors start answer
      have begun := stands.length
      have ended := further.length
      show cursor.position < after.position
      omega
    · exact further.orderly.progresses span member before
  | raised further same => exact .raised further same
  | exhausted => exact .exhausted

end Lox.Syntax.Cursor
