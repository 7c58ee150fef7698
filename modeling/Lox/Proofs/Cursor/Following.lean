import Lox.Proofs.Cursor.Reading
import Lox.Proofs.Grammar.Reading

/-! A cursor that follows a parser.

Where the closing token is the only one of its kind, a cursor stands before the rest of the
other tokens, and a reading follows a parser if from there it answers alike, with the same
errors, and ends where the parser leaves the rest. A parser that lacks fuel says nothing.
-/

set_option autoImplicit false

namespace Lox.Syntax.Cursor

open Token (Kind)

/-- The last token closes the list, and no other one does. -/
structure Closes (front : List Token) (last : Token) : Prop where
  ends : last.kind = .endOfInput
  only : ∀ token ∈ front, token.kind ≠ .endOfInput

/-- The cursor has never moved back or beyond the bound, and it has moved on in every
declaration that began before the bound. -/
structure Orderly (cursor : Cursor) (bound : Nat) : Prop where
  ascends : (cursor.position :: cursor.trail).Pairwise (· ≥ ·)
  within : ∀ position ∈ cursor.position :: cursor.trail, position ≤ bound
  progresses : ∀ span ∈ cursor.spans, span.start < bound → span.start < span.stop

/-- The cursor stands before the rest of the tokens in front of the closing one. -/
structure Stands (front : List Token) (cursor : Cursor) (rest : List Token) : Prop where
  rest : front.drop cursor.position = rest
  orderly : cursor.Orderly front.length

theorem Stands.within {front rest : List Token} {cursor : Cursor} (stands : Stands front cursor rest) :
    cursor.position ≤ front.length :=
  stands.orderly.within cursor.position List.mem_cons_self

/-- Errors at their tokens; one behind the last token is at the closing one. -/
def located (last : Token) (errors : List SyntaxError) : List (Token × SyntaxError.Cause) :=
  errors.map fun error => (error.token.getD last, error.cause)

theorem located_append (last : Token) (first second : List SyntaxError) :
    located last (first ++ second) = located last first ++ located last second := List.map_append

section
variable {α β : Type} {front : List Token} {last : Token}

/-- A step ends like a parser does. -/
inductive Agrees (front : List Token) (last : Token) (cursor : Cursor) : Step α → Parsed α → Prop where
  | done {value : α} {after : Cursor} {rest : List Token} {errors : List SyntaxError} :
      Stands front after rest → after.errors = cursor.errors ++ located last errors →
      Agrees front last cursor (.done value after) (.ok value rest errors)
  | raised {after : Cursor} {rest : List Token} {earlier : List SyntaxError} {error : SyntaxError} :
      Stands front after rest → after.errors = cursor.errors ++ located last (earlier ++ [error]) →
      Agrees front last cursor (.raised after) (.stopped rest earlier error)
  | exhausted {step : Step α} : Agrees front last cursor step .exhausted

theorem Agrees.after {cursor middle : Cursor} {step : Step α} {parsed : Parsed α}
    {errors : List SyntaxError} (agrees : Agrees front last middle step parsed)
    (noted : middle.errors = cursor.errors ++ located last errors) :
    Agrees front last cursor step (parsed.after errors) := by
  cases agrees with
  | done stands same =>
    refine .done stands ?_
    rw [same, noted, List.append_assoc, located_append]
  | raised stands same =>
    refine .raised stands ?_
    rw [same, noted, List.append_assoc, ← located_append, List.append_assoc]
  | exhausted => exact .exhausted

theorem Agrees.after_nil {cursor middle : Cursor} {step : Step α} {parsed : Parsed α}
    (agrees : Agrees front last middle step parsed) (same : middle.errors = cursor.errors) :
    Agrees front last cursor step (parsed.after []) :=
  agrees.after (same.trans (List.append_nil cursor.errors).symm)

theorem Agrees.silent {cursor after : Cursor} {value : α} {rest : List Token}
    (stands : Stands front after rest) (same : after.errors = cursor.errors) :
    Agrees front last cursor (.done value after) (.ok value rest []) :=
  .done stands (same.trans (List.append_nil cursor.errors).symm)

theorem Agrees.of_next {cursor : Cursor} {step : Step α} {parsed : Parsed α}
    (agrees : Agrees front last cursor.next step parsed) : Agrees front last cursor step parsed := by
  rw [← Parsed.after_nil parsed]
  exact agrees.after_nil rfl

theorem Agrees.bind {cursor : Cursor} {step : Step α} {parsed : Parsed α}
    {next : α → Cursor → Step β} {more : α → List Token → Parsed β}
    (agrees : Agrees front last cursor step parsed)
    (goesOn : ∀ value after rest, Stands front after rest →
      Agrees front last after (next value after) (more value rest)) :
    Agrees front last cursor (step.bind next) (parsed.bind more) := by
  cases agrees with
  | done stands same => exact (goesOn _ _ _ stands).after same
  | raised stands same => exact .raised stands same
  | exhausted => exact .exhausted

theorem Agrees.of_ok {cursor : Cursor} {step : Step α} {value : α} {rest : List Token}
    {errors : List SyntaxError} (agrees : Agrees front last cursor step (.ok value rest errors)) :
    ∃ after, step = .done value after ∧ Stands front after rest ∧
      after.errors = cursor.errors ++ located last errors := by
  cases agrees with
  | done stands same => exact ⟨_, rfl, stands, same⟩

theorem Agrees.of_stopped {cursor : Cursor} {step : Step α} {rest : List Token}
    {earlier : List SyntaxError} {error : SyntaxError}
    (agrees : Agrees front last cursor step (.stopped rest earlier error)) :
    ∃ after, step = .raised after ∧ Stands front after rest ∧
      after.errors = cursor.errors ++ located last (earlier ++ [error]) := by
  cases agrees with
  | raised stands same => exact ⟨_, rfl, stands, same⟩

def Follows (front : List Token) (last : Token) (reading : Reading α) (parser : Parser α) : Prop :=
  ∀ cursor rest, Stands front cursor rest →
    Agrees front last cursor (reading (front ++ [last]) cursor) (parser rest)

def FollowsBehind (front : List Token) (last token : Token) (reading : Reading α)
    (parser : Parser α) : Prop :=
  ∀ cursor rest, Stands front cursor (token :: rest) →
    Agrees front last cursor.next (reading (front ++ [last]) cursor.next) (parser rest)

namespace Follows

variable {reading : Reading α} {parser : Parser α}

theorem bind {next : α → Reading β} {more : α → Parser β} (follows : Follows front last reading parser)
    (goesOn : ∀ value, Follows front last (next value) (more value)) :
    Follows front last (reading >>= next) (parser >>= more) :=
  fun cursor rest stands => (follows cursor rest stands).bind fun value => goesOn value

theorem pure (value : α) : Follows front last (pure value) (pure value) :=
  fun _ _ stands => .silent stands rfl

theorem map (follows : Follows front last reading parser) (change : α → β) :
    Follows front last (do return change (← reading)) (change <$> parser) := by
  have whole : Follows front last (do return change (← reading)) (do return change (← parser)) :=
    follows.bind fun value => .pure (change value)
  exact whole

theorem exhausted : Follows front last reading (Parser.exhausted : Parser α) :=
  fun _ _ _ => .exhausted

end Follows

end

/-! The tokens around the cursor -/

section
variable {front rest : List Token} {last token : Token} {cursor : Cursor}

theorem Stands.next (stands : Stands front cursor (token :: rest)) : Stands front cursor.next rest := by
  have inside : cursor.position < front.length := by
    rw [← Nat.not_le, ← List.drop_eq_nil_iff, stands.rest]
    exact List.cons_ne_nil token rest
  refine ⟨?_, ?_, ?_, stands.orderly.progresses⟩
  · change front.drop (cursor.position + 1) = rest
    rw [← List.tail_drop, stands.rest]
    rfl
  · refine List.pairwise_cons.mpr ⟨fun earlier member => ?_, stands.orderly.ascends⟩
    rcases List.mem_cons.mp member with rfl | member
    · exact Nat.le_succ _
    · exact Nat.le_succ_of_le ((List.pairwise_cons.mp stands.orderly.ascends).1 earlier member)
  · exact List.forall_mem_cons.mpr ⟨inside, stands.orderly.within⟩

theorem Stands.noted (stands : Stands front cursor rest) (token : Token) (cause : SyntaxError.Cause) :
    Stands front (cursor.noted token cause) rest :=
  ⟨stands.rest, stands.orderly.ascends, stands.orderly.within, stands.orderly.progresses⟩

theorem Stands.length (stands : Stands front cursor rest) :
    cursor.position + rest.length = front.length := by
  rw [← stands.rest, List.length_drop]
  exact Nat.add_sub_cancel' stands.within

theorem Stands.length_lt (stands : Stands front cursor rest) :
    rest.length < (front ++ [last]).length := by
  rw [List.length_append, ← stands.length]
  exact Nat.lt_succ_of_le (Nat.le_add_left _ _)

theorem Stands.mem (stands : Stands front cursor (token :: rest)) : token ∈ front := by
  apply List.mem_of_mem_drop (i := cursor.position)
  rw [stands.rest]
  exact List.mem_cons_self

namespace Reading

theorem peek_eq (stands : Stands front cursor rest) :
    peek (front ++ [last]) cursor = .done (rest.head?.getD last) cursor := by
  have found : (front ++ [last])[cursor.position]? = some (rest.head?.getD last) := by
    rw [← List.head?_drop, List.drop_append_of_le_length stands.within, stands.rest]
    cases rest <;> rfl
  rw [peek, found]

theorem previous_next (stands : Stands front cursor (token :: rest)) :
    previous (front ++ [last]) cursor.next = .done token cursor.next := by
  have found : (front ++ [last])[cursor.position]? = some token := by
    rw [← List.head?_drop, List.drop_append_of_le_length stands.within, stands.rest]
    rfl
  simp only [previous, Cursor.next, found]

variable (closes : Closes front last)
include closes

theorem atEnd_eq (stands : Stands front cursor rest) :
    atEnd (front ++ [last]) cursor = .done rest.isEmpty cursor := by
  cases rest with
  | nil => simp [atEnd, peek_eq stands, closes.ends]
  | cons token rest => simp [atEnd, peek_eq stands, closes.only token stands.mem]

theorem check_eq (stands : Stands front cursor rest) (kind : Kind) :
    check kind (front ++ [last]) cursor = .done (rest.head?.any (·.kind = kind)) cursor := by
  cases rest with
  | nil => simp [check, atEnd_eq closes stands]
  | cons token rest => simp [check, atEnd_eq closes stands, peek_eq stands]

theorem advance_cons (stands : Stands front cursor (token :: rest)) :
    advance (front ++ [last]) cursor = .done token cursor.next := by
  simp [advance, atEnd_eq closes stands, move, previous_next stands]

theorem accept_nil (stands : Stands front cursor []) : ∀ kinds : List Kind,
    accept kinds (front ++ [last]) cursor = .done false cursor
  | [] => rfl
  | kind :: kinds => by simp [accept, check_eq closes stands, accept_nil stands kinds]

theorem accept_cons (stands : Stands front cursor (token :: rest)) : ∀ kinds : List Kind,
    accept kinds (front ++ [last]) cursor =
      if token.kind ∈ kinds then .done true cursor.next else .done false cursor
  | [] => rfl
  | kind :: kinds => by
    by_cases same : token.kind = kind
    · simp [accept, check_eq closes stands, advance_cons closes stands, same]
    · simp [accept, check_eq closes stands, accept_cons stands kinds, same]

variable {α : Type}

theorem choice_nil (stands : Stands front cursor []) (kinds : List Kind) (yes no : Reading α) :
    (do if ← accept kinds then yes else no : Reading α) (front ++ [last]) cursor =
      no (front ++ [last]) cursor := by
  rw [bind_apply, accept_nil closes stands]
  rfl

theorem choice_cons (stands : Stands front cursor (token :: rest)) (kinds : List Kind)
    (yes no : Reading α) :
    (do if ← accept kinds then yes else no : Reading α) (front ++ [last]) cursor =
      if token.kind ∈ kinds then yes (front ++ [last]) cursor.next
      else no (front ++ [last]) cursor := by
  rw [bind_apply, accept_cons closes stands]
  split <;> rfl

end Reading

end

/-! Readings that follow parsers -/

section
variable {α β : Type} {front : List Token} {last : Token}

namespace FollowsBehind

variable {token : Token} {parser : Parser α}

theorem of_follows {reading : Reading α} (follows : Follows front last reading parser) :
    FollowsBehind front last token reading parser :=
  fun _ _ stands => follows _ _ stands.next

theorem previous {next : Token → Reading α} (follows : Follows front last (next token) parser) :
    FollowsBehind front last token (Reading.previous >>= next) parser := by
  intro cursor rest stands
  rw [bind_apply, Reading.previous_next stands]
  exact follows _ _ stands.next

end FollowsBehind

namespace Follows

theorem ite {condition : Bool} {yes no : Reading α} {first second : Parser α}
    (whenTrue : Follows front last yes first) (whenFalse : Follows front last no second) :
    Follows front last (if condition then yes else no) (if condition then first else second) := by
  cases condition with
  | true => exact whenTrue
  | false => exact whenFalse

theorem note (token : Token) (cause : SyntaxError.Cause) :
    Follows front last (Reading.note token cause) (Parser.noteAt (some token) cause) :=
  fun _ _ stands => .done (stands.noted token cause) rfl

theorem behindNote {reading : Reading α} {parser : Parser α} (follows : Follows front last reading parser)
    (cause : SyntaxError.Cause) :
    Follows front last
      (do
        Reading.note (← Reading.peek) cause
        reading)
      (do
        Parser.note cause
        parser) := by
  intro cursor rest stands
  rw [bind_apply, Reading.peek_eq stands]
  refine (follows _ rest (stands.noted _ cause)).after ?_
  cases rest <;> rfl

theorem fail (cause : SyntaxError.Cause) :
    Follows front last (Reading.fail cause : Reading α) (Parser.stop cause) := by
  intro cursor rest stands
  rw [Reading.fail, bind_apply, Reading.peek_eq stands]
  refine .raised (stands.noted _ cause) ?_
  cases rest <;> rfl

variable (closes : Closes front last)
include closes

theorem check (kind : Kind) : Follows front last (Reading.check kind) (Parser.nextIs kind) := by
  intro cursor rest stands
  rw [Reading.check_eq closes stands]
  exact .silent stands rfl

/-- Without a token of the kinds the reading goes on in one way, behind one in another. -/
theorem accept {kinds : List Kind} {yes no : Reading β} {next : Option Token → Parser β}
    (without : Follows front last no (next none))
    (behind : ∀ token, token.kind ∈ kinds → FollowsBehind front last token yes (next (some token))) :
    Follows front last (do if ← Reading.accept kinds then yes else no)
      (Parser.accept? kinds >>= next) := by
  intro cursor rest stands
  rw [Parser.bind_apply]
  cases rest with
  | nil =>
    rw [Reading.choice_nil closes stands, Parser.accept?]
    exact (without cursor [] stands).after_nil rfl
  | cons token rest =>
    rw [Reading.choice_cons closes stands, Parser.accept?]
    split
    next member => exact (behind token member cursor rest stands).after_nil rfl
    next => exact (without cursor _ stands).after_nil rfl

theorem consume (kind : Kind) (cause : SyntaxError.Cause) :
    Follows front last (Reading.consume kind cause) (Parser.expect kind cause) := by
  intro cursor rest stands
  rw [Reading.consume, bind_apply, Reading.check_eq closes stands, Parser.expect, Parser.bind_apply]
  cases rest with
  | nil => exact (fail cause cursor [] stands).after_nil rfl
  | cons token rest =>
    rw [List.head?_cons, Option.any_some, Parser.accept?]
    by_cases same : token.kind = kind
    · have moved : Agrees front last cursor (Reading.advance (front ++ [last]) cursor)
          (.ok token rest []) := by
        rw [Reading.advance_cons closes stands]
        exact .silent stands.next rfl
      rw [decide_eq_true same, if_pos (List.mem_singleton.mpr same)]
      exact moved.after_nil rfl
    · rw [decide_eq_false same, if_neg (fun member => same (List.mem_singleton.mp member))]
      exact (fail cause cursor _ stands).after_nil rfl

theorem items {item : Reading α} {parser : Parser α} (follows : Follows front last item parser)
    (tooMany : SyntaxError.Cause) : ∀ (fuel count : Nat),
    Follows front last (Reading.items item tooMany fuel count)
      (Parser.separated parser tooMany fuel (ExprParser.maxArguments - count))
  | 0, _ => exhausted
  | fuel + 1, count => by
    rw [Reading.items, Parser.separated]
    by_cases full : ExprParser.maxArguments ≤ count
    case' pos =>
      rw [if_pos full, if_pos (Nat.sub_eq_zero_of_le full)]
      refine behindNote ?_ tooMany
    case' neg => rw [if_neg full, if_neg (Nat.sub_ne_zero_of_lt (Nat.lt_of_not_le full))]
    all_goals
      refine follows.bind fun first => accept closes (.pure [first]) fun token _ => .of_follows ?_
      exact (items follows tooMany fuel (count + 1)).bind fun others => .pure (first :: others)

end Follows

end

end Lox.Syntax.Cursor
