import Mathlib.Data.List.Forall2
import Lox.Proofs.Frames.Growth

/-! Two runs side by side.

Two outcomes make a pair if they are of the same kind and what they hand on goes
together: the values and the states, the failures and the states, or the states
in which the fuel ran out.
-/

set_option autoImplicit false

namespace Lox

inductive ResultPairs {α β : Type} (good : α → β → Prop) (fails : Failure → Failure → Prop) :
    Except Failure α → Except Failure β → Prop where
  | ok {value : α} {other : β} : good value other → ResultPairs good fails (.ok value) (.ok other)
  | error {failure other : Failure} :
      fails failure other → ResultPairs good fails (.error failure) (.error other)

namespace CompletionIn

/-- Two completions of the same kind, if what they hand out goes together. -/
theorem cases_of_values {α β : Type} {relates : α → β → Prop} {completion : CompletionIn α}
    {second : CompletionIn β} (related : List.Forall₂ relates completion.values second.values) :
    completion = .normal ∧ second = .normal ∨
      ∃ value other, completion = .returned value ∧ second = .returned other ∧ relates value other := by
  cases completion with
  | normal =>
    cases second with
    | normal => exact .inl ⟨rfl, rfl⟩
    | returned other => cases related
  | returned value =>
    cases second with
    | normal => cases related
    | returned other =>
      cases related with
      | cons holds _ => exact .inr ⟨value, other, rfl, rfl, holds⟩

/-- A call whose body ended gives nothing, or what the body handed out. -/
theorem related_value {ε δ : Type} {relates : ValueIn ε → ValueIn δ → Prop}
    {completion : CompletionIn (ValueIn ε)} {second : CompletionIn (ValueIn δ)}
    (nothing : relates .nil .nil)
    (related : List.Forall₂ relates completion.values second.values) :
    List.Forall₂ relates [completion.value] [second.value] := by
  rcases cases_of_values related with ⟨rfl, rfl⟩ | ⟨value, other, rfl, rfl, holds⟩
  · exact .cons nothing .nil
  · exact .cons holds .nil

end CompletionIn

namespace OutcomeIn

variable {σ τ α β γ δ : Type} {good : α → σ → β → τ → Prop}
  {bad : Failure → σ → Failure → τ → Prop} {cut : σ → τ → Prop} {outcome : OutcomeIn σ α}
  {other : OutcomeIn τ β}

inductive Pairs (good : α → σ → β → τ → Prop) (bad : Failure → σ → Failure → τ → Prop)
    (cut : σ → τ → Prop) : OutcomeIn σ α → OutcomeIn τ β → Prop where
  | done {value : α} {state : σ} {second : β} {mirror : τ} :
      good value state second mirror → Pairs good bad cut (.done value state) (.done second mirror)
  | failed {failure : Failure} {state : σ} {second : Failure} {mirror : τ} :
      bad failure state second mirror →
      Pairs good bad cut (.failed failure state) (.failed second mirror)
  | exhausted {state : σ} {mirror : τ} : cut state mirror → Pairs good bad cut (.cut state) (.cut mirror)

theorem Pairs.bind {next : α → σ → OutcomeIn σ γ} {otherNext : β → τ → OutcomeIn τ δ}
    {better : γ → σ → δ → τ → Prop} (pairs : Pairs good bad cut outcome other)
    (goesOn : ∀ {value : α} {state : σ} {second : β} {mirror : τ}, outcome = .done value state →
      other = .done second mirror → good value state second mirror →
      Pairs better bad cut (next value state) (otherNext second mirror)) :
    Pairs better bad cut (outcome.bind next) (other.bind otherNext) := by
  cases pairs with
  | done holds => exact goesOn rfl rfl holds
  | failed fails => exact .failed fails
  | exhausted ends => exact .exhausted ends

theorem Pairs.mono {better : α → σ → β → τ → Prop} {worse : Failure → σ → Failure → τ → Prop}
    (pairs : Pairs good bad cut outcome other)
    (weaker : ∀ {value : α} {state : σ} {second : β} {mirror : τ}, good value state second mirror →
      better value state second mirror)
    (weakerBad : ∀ {failure : Failure} {state : σ} {second : Failure} {mirror : τ},
      bad failure state second mirror → worse failure state second mirror) :
    Pairs better worse cut outcome other := by
  cases pairs with
  | done holds => exact .done (weaker holds)
  | failed fails => exact .failed (weakerBad fails)
  | exhausted ends => exact .exhausted ends

theorem Pairs.mapState {change : σ → σ} {otherChange : τ → τ}
    {worse : Failure → σ → Failure → τ → Prop}
    (pairs : Pairs (fun value state second mirror =>
      good value (change state) second (otherChange mirror)) bad cut outcome other)
    (changeBad : ∀ {failure : Failure} {state : σ} {second : Failure} {mirror : τ},
      bad failure state second mirror → worse failure (change state) second (otherChange mirror))
    (changeCut : ∀ {state : σ} {mirror : τ}, cut state mirror →
      cut (change state) (otherChange mirror)) :
    Pairs good worse cut (outcome.mapState change) (other.mapState otherChange) := by
  cases pairs with
  | done holds => exact .done holds
  | failed fails => exact .failed (changeBad fails)
  | exhausted ends => exact .exhausted (changeCut ends)

theorem pairs_ofExcept {result : Except Failure α} {second : Except Failure β} {state : σ} {mirror : τ}
    {relates : α → β → Prop} {fails : Failure → Failure → Prop}
    (results : ResultPairs relates fails result second)
    (ok : ∀ {value : α} {other : β}, relates value other → good value state other mirror)
    (error : ∀ {failure other : Failure}, result = .error failure → second = .error other →
      fails failure other → bad failure state other mirror) :
    Pairs good bad cut (ofExcept result state) (ofExcept second mirror) := by
  cases results with
  | ok related => exact .done (ok related)
  | error failing => exact .failed (error rfl rfl failing)

end OutcomeIn

end Lox
