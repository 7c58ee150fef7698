import Lox.Proofs.Scoping.Accepted
import Lox.Proofs.Thinning.Trees

/-! Resolving a tree with and without scopes in which nothing is declared.

If a tree is accepted with such scopes around, it is accepted without them, and then has
the distances of the scopes that are kept.
-/

set_option autoImplicit false

namespace Lox

namespace Scope

def Settled (scopes : List Scope) : Prop := ∀ name, unready scopes name = false

/-- The scopes around a tree, and those of them that are kept. -/
inductive Thinned : List Bool → List Scope → List Scope → Prop where
  | same (scopes : List Scope) : Thinned [] scopes scopes
  | keep {kept : List Bool} {scopes slim : List Scope} (scope : Scope) :
      Thinned kept scopes slim → Thinned (true :: kept) (scope :: scopes) (scope :: slim)
  | skip {kept : List Bool} {scopes slim : List Scope} :
      Thinned kept scopes slim → Settled slim → Thinned (false :: kept) ([] :: scopes) slim

variable {kept : List Bool} {scopes slim : List Scope}

theorem settled_enter (scopes : List Scope) : Settled ([] :: scopes) := fun _ => rfl

theorem Settled.mark (settled : Settled scopes) (name : Token) :
    Settled (Scope.mark name true scopes) := by
  cases scopes with
  | nil => exact settled
  | cons scope outer =>
    intro other
    have before := settled other
    simp only [unready, List.head?_cons, Option.any_some, decide_eq_false_iff_not] at before
    simp only [Scope.mark, unready, List.head?_cons, Option.any_some, decide_eq_false_iff_not]
    unfold ready? at before ⊢
    rw [List.lookup_cons]
    cases other.lexeme == name.lexeme with
    | true => simp
    | false => exact before

namespace Thinned

theorem mark (thinned : Thinned kept scopes slim) (keeps : keptAt kept 0 = true) (name : Token)
    (ready : Bool) : Thinned kept (Scope.mark name ready scopes) (Scope.mark name ready slim) := by
  cases thinned with
  | same => exact .same _
  | keep scope outer => exact .keep _ outer
  | skip => cases keeps

theorem unready (thinned : Thinned kept scopes slim) {name : Token}
    (ready : Scope.unready scopes name = false) : Scope.unready slim name = false := by
  cases thinned with
  | same => exact ready
  | keep scope outer => exact ready
  | skip outer settled => exact settled name

theorem distance? (thinned : Thinned kept scopes slim) (name : Token) :
    ThinnedUse kept (Scope.distance? scopes name) (Scope.distance? slim name) := by
  induction thinned with
  | same scopes => exact .refl (by simp) _
  | keep scope outer ih =>
    unfold Scope.distance? at ih ⊢
    rw [List.findIdx?_cons, List.findIdx?_cons]
    split
    · exact ⟨fun steps here => by cases here; rfl, rfl⟩
    · exact ih.keep
  | skip outer settled ih =>
    unfold Scope.distance? at ih ⊢
    rw [List.findIdx?_cons, if_neg (by simp [declares, ready?])]
    exact ih.skip

end Thinned

end Scope

namespace Resolution

variable {α β γ δ : Type} {resolution : Resolution α} {other : Resolution β} {good : α → β → Prop}
  {better : γ → δ → Prop}

/-- If one ends without errors, so does the other, with a result that goes with the first. -/
def Follows (resolution : Resolution α) (other : Resolution β) (good : α → β → Prop) : Prop :=
  ∀ value uses, resolution.Yields value uses →
    ∃ second more, other.Yields second more ∧ good value second

theorem follows_pure {value : α} {second : β} (holds : good value second) :
    (Pure.pure value : Resolution α).Follows (Pure.pure second) good := by
  rintro _ _ ⟨⟩
  exact ⟨second, [], rfl, holds⟩

theorem Follows.and_gives {fine : α → Prop} (follows : resolution.Follows other good)
    (gives : resolution.Gives fine) :
    resolution.Follows other fun value second => good value second ∧ fine value := by
  intro value uses yields
  obtain ⟨second, more, also, holds⟩ := follows value uses yields
  exact ⟨second, more, also, holds, gives value uses yields⟩

theorem Follows.bind {next : α → Resolution γ} {further : β → Resolution δ}
    (follows : resolution.Follows other good)
    (goesOn : ∀ {value : α} {second : β}, good value second →
      (next value).Follows (further second) better) :
    (resolution >>= next).Follows (other >>= further) better := by
  intro result uses yields
  obtain ⟨value, first, last, here, there, rfl⟩ := yields.exists_of_bind
  obtain ⟨second, more, also, holds⟩ := follows value first here
  obtain ⟨found, most, likewise, fine⟩ := goesOn holds result last there
  exact ⟨found, _, also.bind likewise, fine⟩

theorem Follows.map {next : α → Resolution γ} {better : γ → β → Prop}
    (follows : resolution.Follows other good)
    (goesOn : ∀ {value : α} {second : β}, good value second →
      ∃ result, next value = Pure.pure result ∧ better result second) :
    (resolution >>= next).Follows other better := by
  intro result uses yields
  obtain ⟨value, first, last, here, there, rfl⟩ := yields.exists_of_bind
  obtain ⟨second, more, also, holds⟩ := follows value first here
  obtain ⟨same, ends, fine⟩ := goesOn holds
  rw [ends] at there
  cases there
  exact ⟨second, more, also, fine⟩

theorem Follows.of_pure_bind {value : γ} {next : γ → Resolution β}
    (follows : resolution.Follows (next value) good) :
    resolution.Follows (Pure.pure value >>= next) good := by
  intro result uses yields
  obtain ⟨second, more, also, holds⟩ := follows result uses yields
  have there : (Pure.pure value : Resolution γ).Yields value [] := rfl
  exact ⟨second, _, there.bind also, holds⟩

theorem follows_noteIf {condition second : Bool} {error : ScopeError}
    (absent : condition = false → second = false) :
    (noteIf condition error).Follows (noteIf second error) fun _ _ => True := by
  intro value uses yields
  refine ⟨(), [], yields_noteIf (absent ?_), trivial⟩
  cases condition with
  | false => rfl
  | true => cases yields

theorem follows_useOf {kept : List Bool} {scopes slim : List Scope}
    (thinned : Scope.Thinned kept scopes slim) (assigned : Bool) (name : Token) :
    (useOf scopes assigned name).Follows (useOf slim assigned name) (ThinnedUse kept) := by
  intro distance uses yields
  have same : Scope.distance? scopes name = distance := by
    have answer : (useOf scopes assigned name).Yields _ _ := yields_useOf rfl
    cases answer.symm.trans yields
    rfl
  exact ⟨_, _, yields_useOf rfl, same ▸ thinned.distance? name⟩

end Resolution

open Resolution

section
variable {kept : List Bool} {scopes slim : List Scope}

mutual

theorem Expr.resolve_thinned (thinned : Scope.Thinned kept scopes slim) : ∀ expr : Expr,
    (expr.resolve scopes).Follows (expr.resolve slim) (Thinned kept)
  | .literal value => follows_pure (.literal value)
  | .grouping inner => (inner.resolve_thinned thinned).bind fun same => follows_pure (.grouping same)
  | .unary _ operand => (operand.resolve_thinned thinned).bind fun same => follows_pure (.unary same)
  | .binary left _ right =>
    (left.resolve_thinned thinned).bind fun same =>
      (right.resolve_thinned thinned).bind fun also => follows_pure (.binary same also)
  | .logical left _ right =>
    (left.resolve_thinned thinned).bind fun same =>
      (right.resolve_thinned thinned).bind fun also => follows_pure (.logical same also)
  | .reference name _ =>
    (follows_noteIf thinned.unready).bind fun _ =>
      (follows_useOf thinned false name).bind fun use => follows_pure (.reference use)
  | .assign name value _ =>
    (value.resolve_thinned thinned).bind fun same =>
      (follows_useOf thinned true name).bind fun use => follows_pure (.assign same use)
  | .call callee _ arguments =>
    (callee.resolve_thinned thinned).bind fun same =>
      (resolveAll_thinned thinned arguments).bind fun also => follows_pure (.call same also)
  | .misplaced _ => fun _ _ yields => by cases yields

theorem Expr.resolveAll_thinned (thinned : Scope.Thinned kept scopes slim) : ∀ exprs : List Expr,
    (resolveAll scopes exprs).Follows (resolveAll slim exprs) (AllThinned kept)
  | [] => follows_pure .nil
  | first :: others =>
    (first.resolve_thinned thinned).bind fun same =>
      (resolveAll_thinned thinned others).bind fun also => follows_pure (.cons same also)

end

theorem Expr.resolveOption_thinned (thinned : Scope.Thinned kept scopes slim) :
    ∀ expr : Option Expr, (resolveOption scopes expr).Follows (resolveOption slim expr)
      (Option.Rel (Thinned kept))
  | none => follows_pure .none
  | some expr => (expr.resolve_thinned thinned).bind fun same => follows_pure (.some same)

end

namespace Stmt

def ThinnedWith {α : Type} (thinned : α → α → Prop) (kept : List Bool)
    (result other : α × List Scope) : Prop :=
  thinned result.1 other.1 ∧ Scope.Thinned kept result.2 other.2

mutual

theorem resolve_thinned : ∀ (stmt : Stmt) {kept : List Bool} {scopes slim : List Scope}
    {inFunction : Bool}, Scope.Thinned kept scopes slim → stmt.Proper →
    keptAt kept 0 = true ∨ stmt.declared = [] →
    (stmt.resolve scopes inFunction).Follows (stmt.resolve slim inFunction)
      (ThinnedWith (Thinned kept) kept)
  | .expression inner, _, _, _, _, thinned, _, _ =>
    (inner.resolve_thinned thinned).bind fun same => follows_pure ⟨.expression same, thinned⟩
  | .print inner, _, _, _, _, thinned, _, _ =>
    (inner.resolve_thinned thinned).bind fun same => follows_pure ⟨.print same, thinned⟩
  | .varDecl name initializer, _, _, _, _, thinned, _, declares => by
    -- A declaration stands in a scope that is kept, so it is entered on both sides.
    have keeps := declares.resolve_right (by simp [declared])
    exact (Expr.resolveOption_thinned (thinned.mark keeps name false) initializer).bind fun same =>
      follows_pure ⟨.varDecl keeps same, thinned.mark keeps name true⟩
  | .block body, _, _, _, _, thinned, proper, _ =>
    -- A block of the program itself is kept.
    (resolveAll_thinned body (.keep [] thinned) proper).bind fun same =>
      follows_pure ⟨.block same.1, thinned⟩
  | .conditional condition yes none, _, _, _, _, thinned, proper, _ =>
    (condition.resolve_thinned thinned).bind fun same =>
      (yes.resolve_thinned thinned proper.2.1 (.inr proper.2.2)).bind fun also =>
        follows_pure ⟨.conditional same also.1, also.2⟩
  | .conditional condition yes (some no), _, _, _, _, thinned, proper, _ =>
    (condition.resolve_thinned thinned).bind fun same =>
      (yes.resolve_thinned thinned proper.2.1.1 (.inr proper.2.1.2)).bind fun also =>
        (no.resolve_thinned also.2 proper.2.2.1 (.inr proper.2.2.2)).bind fun likewise =>
          follows_pure ⟨.alternative same also.1 likewise.1, likewise.2⟩
  | .loop condition body, _, _, _, _, thinned, proper, _ =>
    (condition.resolve_thinned thinned).bind fun same =>
      (body.resolve_thinned thinned proper.2.1 (.inr proper.2.2)).bind fun also =>
        follows_pure ⟨.loop same also.1, also.2⟩
  | .funDecl name params body, _, _, _, _, thinned, proper, declares => by
    have keeps := declares.resolve_right (by simp [declared])
    have inside := thinned.mark keeps name true
    -- So is the scope of the parameters.
    exact (resolveAll_thinned body (.keep (Scope.ofParams params) inside) proper).bind fun same =>
      follows_pure ⟨.funDecl keeps same.1, inside⟩
  | .ret _ value, _, _, _, _, thinned, _, _ =>
    (follows_noteIf id).bind fun _ =>
      (Expr.resolveOption_thinned thinned value).bind fun same => follows_pure ⟨.ret same, thinned⟩
  | .misplaced _, _, _, _, _, _, proper, _ => proper.elim

theorem resolveAll_thinned : ∀ (stmts : List Stmt) {kept : List Bool} {scopes slim : List Scope}
    {inFunction : Bool}, Scope.Thinned (true :: kept) scopes slim → AllProper stmts →
    (resolveAll scopes inFunction stmts).Follows (resolveAll slim inFunction stmts)
      (ThinnedWith (AllThinned (true :: kept)) (true :: kept))
  | [], _, _, _, _, thinned, _ => follows_pure ⟨.nil, thinned⟩
  | first :: others, _, _, _, _, thinned, proper =>
    (first.resolve_thinned thinned proper.1 (.inl rfl)).bind fun same =>
      (resolveAll_thinned others same.2 proper.2).bind fun also =>
        follows_pure ⟨.cons same.1 also.1, also.2⟩

end

end Stmt

end Lox
