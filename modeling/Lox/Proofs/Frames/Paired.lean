import Mathlib.Data.List.Forall2
import Lox.Store

/-! Two frames side by side.

They bind names that go together in the same order, to values that go together. If
names are told apart on one side exactly when they are on the other, what is bound and
looked up goes together as well.
-/

set_option autoImplicit false

namespace Lox.Frame

variable {α β : Type} {tells : String → String → Prop} {good better : α → β → Prop}
  {bindings : List (String × α)} {others : List (String × β)}

def Paired (tells : String → String → Prop) (good : α → β → Prop) :
    List (String × α) → List (String × β) → Prop :=
  List.Forall₂ fun bound other => tells bound.1 other.1 ∧ good bound.2 other.2

def Apart (tells : String → String → Prop) : Prop :=
  ∀ {name other second otherSecond : String}, tells name other → tells second otherSecond →
    (name = second ↔ other = otherSecond)

theorem apart_eq : Apart (· = ·) := by
  rintro name _ second _ rfl rfl
  exact Iff.rfl

theorem Paired.mono (paired : Paired tells good bindings others)
    (weaker : ∀ {value : α} {other : β}, good value other → better value other) :
    Paired tells better bindings others :=
  List.Forall₂.imp (fun _ _ both => ⟨both.1, weaker both.2⟩) paired

/-- Where names are the same and values look the same, so do the frames. -/
theorem Paired.map_eq {γ : Type} {face : α → γ} {otherFace : β → γ}
    (paired : Paired tells good bindings others)
    (told : ∀ {name other : String}, tells name other → other = name)
    (alike : ∀ {value : α} {other : β}, good value other → otherFace other = face value) :
    others.map (Prod.map id otherFace) = bindings.map (Prod.map id face) := by
  induction paired with
  | nil => rfl
  | @cons bound mirror _ _ both rest ih =>
    have first : Prod.map id otherFace mirror = Prod.map id face bound :=
      Prod.ext (told both.1) (alike both.2)
    rw [List.map_cons, List.map_cons, first, ih]

theorem Paired.bind (apart : Apart tells) (paired : Paired tells good bindings others)
    {name other : String} {value : α} {second : β} (told : tells name other)
    (holds : good value second) :
    Paired tells good (Frame.bind name value bindings) (Frame.bind other second others) := by
  induction paired with
  | nil => exact .cons ⟨told, holds⟩ .nil
  | @cons bound mirror _ _ both rest ih =>
    unfold Frame.bind
    by_cases same : bound.1 = name
    · rw [if_pos same, if_pos ((apart both.1 told).mp same)]
      exact .cons ⟨told, holds⟩ rest
    · rw [if_neg same, if_neg fun clash => same ((apart both.1 told).mpr clash)]
      exact .cons both ih

theorem Paired.lookup (apart : Apart tells) (paired : Paired tells good bindings others)
    {name other : String} (told : tells name other) :
    (Frame.lookup name bindings = none ∧ Frame.lookup other others = none) ∨
      ∃ value second, Frame.lookup name bindings = some value ∧
        Frame.lookup other others = some second ∧ good value second := by
  induction paired with
  | nil => exact .inl ⟨rfl, rfl⟩
  | @cons bound mirror _ _ both rest ih =>
    unfold Frame.lookup
    by_cases same : bound.1 = name
    · rw [if_pos same, if_pos ((apart both.1 told).mp same)]
      exact .inr ⟨_, _, rfl, rfl, both.2⟩
    · rw [if_neg same, if_neg fun clash => same ((apart both.1 told).mpr clash)]
      exact ih

end Lox.Frame
