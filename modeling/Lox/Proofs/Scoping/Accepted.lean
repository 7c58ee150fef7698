import Lox.Proofs.Scoping.Resolved

/-! Which trees the resolver accepts.

Resolving goes by names and not by the distances that a tree has already. So a tree whose
uses are located, and which returns only inside functions, resolves without errors to
itself, and the distances are recorded in the order of its uses.
-/

set_option autoImplicit false

namespace Lox

namespace Resolution

variable {α β : Type}

theorem bind_ok {resolution : Resolution α} {next : α → Resolution β} {value : α} {result : β}
    {uses more : List LocalUse} {errors others : List ScopeError}
    (first : resolution = .ok value uses errors) (second : next value = .ok result more others) :
    resolution >>= next = .ok result (uses ++ more) (errors ++ others) := by
  subst first
  change Resolution.bind _ _ = _
  simp only [Resolution.bind, second]

theorem exists_of_bind_ok {resolution : Resolution α} {next : α → Resolution β} {result : β}
    {uses : List LocalUse} {errors : List ScopeError}
    (whole : resolution >>= next = .ok result uses errors) :
    ∃ value first earlier second later, resolution = .ok value first earlier ∧
      next value = .ok result second later ∧ uses = first ++ second ∧ errors = earlier ++ later := by
  change Resolution.bind resolution next = _ at whole
  cases resolution with
  | malformed shape errors => cases whole
  | ok value first earlier =>
    rw [Resolution.bind] at whole
    cases answer : next value with
    | malformed shape errors =>
      rw [answer] at whole
      cases whole
    | ok found second later =>
      rw [answer] at whole
      cases whole
      exact ⟨value, first, earlier, second, later, rfl, answer, rfl, rfl⟩

def Yields (resolution : Resolution α) (value : α) (uses : List LocalUse) : Prop :=
  resolution = .ok value uses []

theorem Yields.bind {resolution : Resolution α} {next : α → Resolution β} {value : α} {result : β}
    {uses more : List LocalUse} (yields : resolution.Yields value uses)
    (goesOn : (next value).Yields result more) : (resolution >>= next).Yields result (uses ++ more) :=
  bind_ok yields goesOn

theorem Yields.map {resolution : Resolution α} {next : α → Resolution β} {value : α} {result : β}
    {uses : List LocalUse} (yields : resolution.Yields value uses)
    (goesOn : (next value).Yields result []) : (resolution >>= next).Yields result uses := by
  have both := yields.bind goesOn
  rwa [List.append_nil] at both

theorem Yields.exists_of_bind {resolution : Resolution α} {next : α → Resolution β} {result : β}
    {uses : List LocalUse} (yields : (resolution >>= next).Yields result uses) :
    ∃ value first second, resolution.Yields value first ∧ (next value).Yields result second ∧
      uses = first ++ second := by
  obtain ⟨value, first, errors, second, others, here, there, split, none⟩ := exists_of_bind_ok yields
  obtain ⟨rfl, rfl⟩ := List.append_eq_nil_iff.mp none.symm
  exact ⟨value, first, second, here, there, split⟩

theorem yields_noteIf {condition : Bool} {error : ScopeError} (absent : condition = false) :
    (noteIf condition error).Yields () [] := by
  rw [absent]
  rfl

theorem gives_any {resolution : Resolution α} : resolution.Gives fun _ => True :=
  fun _ _ _ => trivial

end Resolution

def LocalUse.ofDistance (assigned : Bool) (name : Token) : Option Nat → List LocalUse
  | none => []
  | some distance => [⟨assigned, name, distance⟩]

theorem Resolution.yields_useOf {scopes : List Scope} {assigned : Bool} {name : Token}
    {distance : Option Nat} (same : Scope.distance? scopes name = distance) :
    (useOf scopes assigned name).Yields distance (LocalUse.ofDistance assigned name distance) := by
  unfold useOf
  rw [same]
  cases distance <;> rfl

mutual

def Expr.localUses : Expr → List LocalUse
  | .literal _ | .misplaced _ => []
  | .grouping inner => inner.localUses
  | .unary _ operand => operand.localUses
  | .binary left _ right => left.localUses ++ right.localUses
  | .logical left _ right => left.localUses ++ right.localUses
  | .reference name distance => LocalUse.ofDistance false name distance
  | .assign name value distance => value.localUses ++ LocalUse.ofDistance true name distance
  | .call callee _ arguments => callee.localUses ++ localUsesIn arguments

def Expr.localUsesIn : List Expr → List LocalUse
  | [] => []
  | first :: others => first.localUses ++ localUsesIn others

end

mutual

def Stmt.localUses : Stmt → List LocalUse
  | .expression inner | .print inner => inner.localUses
  | .varDecl _ none | .ret _ none | .misplaced _ => []
  | .varDecl _ (some initializer) => initializer.localUses
  | .block body => localUsesIn body
  | .conditional condition yes none => condition.localUses ++ yes.localUses
  | .conditional condition yes (some no) =>
    condition.localUses ++ (yes.localUses ++ no.localUses)
  | .loop condition body => condition.localUses ++ body.localUses
  | .funDecl _ _ body => localUsesIn body
  | .ret _ (some value) => value.localUses

def Stmt.localUsesIn : List Stmt → List LocalUse
  | [] => []
  | first :: others => first.localUses ++ localUsesIn others

end

mutual

def Stmt.ReturnsInside (inFunction : Bool) : Stmt → Prop
  | .ret _ _ => inFunction = true
  | .block body => AllReturnInside inFunction body
  | .conditional _ yes none => yes.ReturnsInside inFunction
  | .conditional _ yes (some no) => yes.ReturnsInside inFunction ∧ no.ReturnsInside inFunction
  | .loop _ body => body.ReturnsInside inFunction
  | .funDecl _ _ body => AllReturnInside true body
  | .expression _ | .print _ | .varDecl _ _ | .misplaced _ => True

def Stmt.AllReturnInside (inFunction : Bool) : List Stmt → Prop
  | [] => True
  | first :: others => first.ReturnsInside inFunction ∧ AllReturnInside inFunction others

end

namespace Stmt

open Resolution

mutual

theorem resolve_returnsInside : ∀ (stmt : Stmt) {scopes : List Scope} {inFunction : Bool},
    (stmt.resolve scopes inFunction).Gives fun result => result.1.ReturnsInside inFunction
  | .expression _, _, _ | .print _, _, _ | .varDecl _ _, _, _ =>
    gives_any.bind fun _ _ => gives_pure trivial
  | .block body, _, _ => (resolveAll_returnsInside body).bind fun _ inside => gives_pure inside
  | .conditional _ yes none, _, _ =>
    gives_any.bind fun _ _ => yes.resolve_returnsInside.bind fun _ inside => gives_pure inside
  | .conditional _ yes (some no), _, _ =>
    gives_any.bind fun _ _ => yes.resolve_returnsInside.bind fun _ inside =>
      no.resolve_returnsInside.bind fun _ also => gives_pure ⟨inside, also⟩
  | .loop _ body, _, _ =>
    gives_any.bind fun _ _ => body.resolve_returnsInside.bind fun _ inside => gives_pure inside
  | .funDecl _ _ body, _, _ =>
    (resolveAll_returnsInside body).bind fun _ inside => gives_pure inside
  | .ret _ _, _, inFunction =>
    gives_noteIf.bind fun _ inside => gives_any.bind fun _ _ =>
      gives_pure (by simpa [ReturnsInside] using inside)
  | .misplaced _, _, _ => gives_malformed

theorem resolveAll_returnsInside : ∀ (stmts : List Stmt) {scopes : List Scope} {inFunction : Bool},
    (resolveAll scopes inFunction stmts).Gives fun result => AllReturnInside inFunction result.1
  | [], _, _ => gives_pure trivial
  | first :: others, _, _ =>
    first.resolve_returnsInside.bind fun _ inside =>
      (resolveAll_returnsInside others).bind fun _ also => gives_pure ⟨inside, also⟩

end

end Stmt

/-- An accepted program returns only inside functions. -/
theorem resolveProgram_returnsInside (statements : List Stmt) :
    (resolveProgram statements).Gives (Stmt.AllReturnInside false) :=
  (Stmt.resolveAll_returnsInside statements).bind fun _ inside => Resolution.gives_pure inside

namespace Region

variable {regions : List Region} {pending : Option String} {name : Token}

theorem unready_scopes_of_ne (other : pending ≠ some name.lexeme) :
    Scope.unready (scopes regions pending) name = false := by
  have ready (region : Region) : ¬ Scope.ready? region.scope name.lexeme = some false := by
    rw [ready?_scope]
    split <;> simp
  cases pending with
  | none => cases regions <;> simp [Scope.unready, scopes, ready]
  | some pending =>
    have hidden : (name.lexeme == pending) = false := by
      simpa using fun same => other (congrArg some same.symm)
    cases regions with
    | nil => simp [Scope.unready, scopes, Scope.ready?, List.lookup_cons, hidden]
    | cons inner outer =>
      have inside := ready inner
      unfold Scope.ready? at inside
      simpa [Scope.unready, scopes, Scope.ready?, List.lookup_cons, hidden] using inside

theorem distance?_of_located {assigned : Bool} {distance : Option Nat}
    (located : Site.Located ⟨regions, pending, assigned, name, distance⟩) :
    Scope.distance? (scopes regions pending) name = distance := by
  rcases located with ⟨own, _, zero⟩ | ⟨other, same⟩
  · change pending = some name.lexeme at own
    change distance = some 0 at zero
    rw [own, zero, distance?_scopes_pending]
  · cases pending with
    | none => exact distance?_scopes.trans same.symm
    | some pending =>
      exact (distance?_scopes_of_ne fun clash => other (congrArg some clash)).trans same.symm

theorem unready_of_located {distance : Option Nat}
    (located : Site.Located ⟨regions, pending, false, name, distance⟩) :
    Scope.unready (scopes regions pending) name = false := by
  rcases located with ⟨_, assigned, _⟩ | ⟨other, _⟩
  · cases assigned
  · exact unready_scopes_of_ne other

end Region

section
variable {regions : List Region} {pending : Option String}

open Resolution

mutual

theorem Expr.resolve_yields : ∀ expr : Expr, expr.Proper →
    expr.EveryUse Site.Located regions pending →
    (expr.resolve (Region.scopes regions pending)).Yields expr expr.localUses
  | .literal _, _, _ => rfl
  | .grouping inner, proper, uses => (inner.resolve_yields proper uses).map rfl
  | .unary _ operand, proper, uses => (operand.resolve_yields proper.2 uses).map rfl
  | .binary left _ right, proper, uses =>
    (left.resolve_yields proper.1 uses.1).bind ((right.resolve_yields proper.2.2 uses.2).map rfl)
  | .logical left _ right, proper, uses =>
    (left.resolve_yields proper.1 uses.1).bind ((right.resolve_yields proper.2 uses.2).map rfl)
  | .reference _ _, _, use =>
    (yields_noteIf (Region.unready_of_located use)).bind
      ((yields_useOf (Region.distance?_of_located use)).map rfl)
  | .assign _ value _, proper, uses =>
    (value.resolve_yields proper uses.1).bind
      ((yields_useOf (Region.distance?_of_located uses.2)).map rfl)
  | .call callee _ arguments, proper, uses =>
    (callee.resolve_yields proper.1 uses.1).bind
      ((resolveAll_yields arguments proper.2 uses.2).map rfl)

theorem Expr.resolveAll_yields : ∀ exprs : List Expr, AllProper exprs →
    EveryUseIn Site.Located regions pending exprs →
    (resolveAll (Region.scopes regions pending) exprs).Yields exprs (localUsesIn exprs)
  | [], _, _ => rfl
  | first :: others, proper, uses =>
    (first.resolve_yields proper.1 uses.1).bind
      ((resolveAll_yields others proper.2 uses.2).map rfl)

end

end

namespace Stmt

open Resolution

theorem resolve_yields_varDecl {name : Token} {initializer : Option Expr} {regions : List Region}
    {inFunction : Bool} (proper : (Stmt.varDecl name initializer).Proper)
    (uses : (Stmt.varDecl name initializer).EveryUse Site.Located regions) :
    ((Stmt.varDecl name initializer).resolve (Region.scopes regions none) inFunction).Yields
      (.varDecl name initializer, Region.scopes (Region.declare name regions) none)
      (Stmt.varDecl name initializer).localUses := by
  rw [resolve, Region.mark_unready, Region.mark_ready]
  cases initializer with
  | none => rfl
  | some initializer =>
    have yields := initializer.resolve_yields proper uses
    exact Yields.map (yields.map rfl) rfl

theorem resolve_yields_ret {keyword : Token} {value : Option Expr} {regions : List Region}
    (proper : (Stmt.ret keyword value).Proper)
    (uses : (Stmt.ret keyword value).EveryUse Site.Located regions) :
    ((Stmt.ret keyword value).resolve (Region.scopes regions none) true).Yields
      (.ret keyword value, Region.scopes regions none) (Stmt.ret keyword value).localUses := by
  rw [resolve]
  cases value with
  | none => rfl
  | some value =>
    have yields := value.resolve_yields proper uses
    exact (yields_noteIf rfl).bind (Yields.map (yields.map rfl) rfl)

def behindAll (regions : List Region) (stmts : List Stmt) : List Region :=
  stmts.foldl behind regions

mutual

theorem resolve_yields : ∀ (stmt : Stmt) {regions : List Region} {inFunction : Bool}, stmt.Proper →
    stmt.EveryUse Site.Located regions → stmt.ReturnsInside inFunction →
    (stmt.resolve (Region.scopes regions none) inFunction).Yields
      (stmt, Region.scopes (stmt.behind regions) none) stmt.localUses
  | .expression inner, _, _, proper, uses, _ | .print inner, _, _, proper, uses, _ =>
    (inner.resolve_yields proper uses).map rfl
  | .varDecl _ _, _, _, proper, uses, _ => resolve_yields_varDecl proper uses
  | .block body, _, _, proper, uses, inside => (resolveAll_yields body proper uses inside).map rfl
  | .conditional condition yes none, _, _, proper, uses, inside => by
    -- A branch declares nothing, so what follows is resolved in the same regions.
    have branch := yes.resolve_yields proper.2.1 uses.2 inside
    rw [behind_eq proper.2.2] at branch
    exact (condition.resolve_yields proper.1 uses.1).bind (branch.map rfl)
  | .conditional condition yes (some no), _, _, proper, uses, inside => by
    have branch := yes.resolve_yields proper.2.1.1 uses.2.1 inside.1
    have other := no.resolve_yields proper.2.2.1 uses.2.2 inside.2
    rw [behind_eq proper.2.1.2] at branch
    rw [behind_eq proper.2.2.2] at other
    exact (condition.resolve_yields proper.1 uses.1).bind (branch.bind (other.map rfl))
  | .loop condition body, _, _, proper, uses, inside => by
    have branch := body.resolve_yields proper.2.1 uses.2 inside
    rw [behind_eq proper.2.2] at branch
    exact (condition.resolve_yields proper.1 uses.1).bind (branch.map rfl)
  | .funDecl name params body, _, _, proper, uses, inside => by
    -- The name is marked as declared before the body, whose scope has the parameters in it.
    have yields := resolveAll_yields body proper uses inside
    rw [← Region.scopes_function, ← Region.mark_ready] at yields
    rw [behind, ← Region.mark_ready]
    exact yields.map rfl
  | .ret _ _, _, _, proper, uses, inside => by
    cases inside
    exact resolve_yields_ret proper uses

theorem resolveAll_yields : ∀ (stmts : List Stmt) {regions : List Region} {inFunction : Bool},
    AllProper stmts → EveryUseIn Site.Located regions stmts → AllReturnInside inFunction stmts →
    (resolveAll (Region.scopes regions none) inFunction stmts).Yields
      (stmts, Region.scopes (behindAll regions stmts) none) (localUsesIn stmts)
  | [], _, _, _, _, _ => rfl
  | first :: others, _, _, proper, uses, inside =>
    (first.resolve_yields proper.1 uses.1 inside.1).bind
      ((resolveAll_yields others proper.2 uses.2 inside.2).map rfl)

end

end Stmt

/-- A located tree that returns only inside functions is accepted as it is. -/
theorem resolveProgram_yields {statements : List Stmt} (proper : Stmt.AllProper statements)
    (uses : Stmt.EveryUseIn Site.Located [] statements)
    (inside : Stmt.AllReturnInside false statements) :
    (resolveProgram statements).Yields statements (Stmt.localUsesIn statements) := by
  have yields := Stmt.resolveAll_yields statements proper uses inside
  exact yields.map rfl

section
variable {scopes : List Scope}

mutual

theorem Expr.resolve_erase : ∀ expr : Expr, expr.erase.resolve scopes = expr.resolve scopes
  | .literal _ | .reference .. | .misplaced _ => rfl
  | .grouping inner => by simp only [erase, resolve, inner.resolve_erase]
  | .unary _ operand => by simp only [erase, resolve, operand.resolve_erase]
  | .binary left _ right => by simp only [erase, resolve, left.resolve_erase, right.resolve_erase]
  | .logical left _ right => by simp only [erase, resolve, left.resolve_erase, right.resolve_erase]
  | .assign _ value _ => by simp only [erase, resolve, value.resolve_erase]
  | .call callee _ arguments => by
    simp only [erase, resolve, callee.resolve_erase, resolveAll_eraseAll arguments]

theorem Expr.resolveAll_eraseAll : ∀ exprs : List Expr,
    resolveAll scopes (eraseAll exprs) = resolveAll scopes exprs
  | [] => rfl
  | first :: others => by
    simp only [eraseAll, resolveAll, first.resolve_erase, resolveAll_eraseAll others]

end

theorem Expr.resolveOption_erase (expr : Option Expr) :
    resolveOption scopes (expr.map erase) = resolveOption scopes expr := by
  cases expr with
  | none => rfl
  | some expr => simp only [Option.map_some, resolveOption, expr.resolve_erase]

end

mutual

theorem Stmt.resolve_erase : ∀ (stmt : Stmt) {scopes : List Scope} {inFunction : Bool},
    stmt.erase.resolve scopes inFunction = stmt.resolve scopes inFunction
  | .expression inner, _, _ | .print inner, _, _ => by
    simp only [erase, resolve, inner.resolve_erase]
  | .varDecl _ initializer, _, _ => by
    simp only [erase, resolve, Expr.resolveOption_erase initializer]
  | .block body, _, _ => by simp only [erase, resolve, resolveAll_eraseAll body]
  | .conditional condition yes none, _, _ => by
    simp only [erase, resolve, condition.resolve_erase, yes.resolve_erase]
  | .conditional condition yes (some no), _, _ => by
    simp only [erase, resolve, condition.resolve_erase, yes.resolve_erase, no.resolve_erase]
  | .loop condition body, _, _ => by
    simp only [erase, resolve, condition.resolve_erase, body.resolve_erase]
  | .funDecl _ _ body, _, _ => by simp only [erase, resolve, resolveAll_eraseAll body]
  | .ret _ value, _, _ => by simp only [erase, resolve, Expr.resolveOption_erase value]
  | .misplaced _, _, _ => rfl

theorem Stmt.resolveAll_eraseAll : ∀ (stmts : List Stmt) {scopes : List Scope} {inFunction : Bool},
    resolveAll scopes inFunction (eraseAll stmts) = resolveAll scopes inFunction stmts
  | [], _, _ => rfl
  | first :: others, _, _ => by
    simp only [eraseAll, resolveAll, first.resolve_erase, resolveAll_eraseAll others]

end

theorem resolveProgram_eraseAll (statements : List Stmt) :
    resolveProgram (Stmt.eraseAll statements) = resolveProgram statements := by
  unfold resolveProgram
  rw [Stmt.resolveAll_eraseAll]

/-! Statements one behind the other -/

open Resolution in
/-- Statements behind others that leave no scope are resolved as the first ones are. -/
theorem Stmt.resolveAll_append_ok {second more : List Stmt} {behind : List Scope} {inFunction : Bool}
    {usesBehind : List LocalUse} {errorsBehind : List ScopeError}
    (also : resolveAll [] inFunction second = .ok (more, behind) usesBehind errorsBehind)
    (first : List Stmt) : ∀ {scopes : List Scope} {resolved : List Stmt} {uses : List LocalUse}
      {errors : List ScopeError},
      resolveAll scopes inFunction first = .ok (resolved, []) uses errors →
      resolveAll scopes inFunction (first ++ second) =
        .ok (resolved ++ more, behind) (uses ++ usesBehind) (errors ++ errorsBehind) := by
  induction first with
  | nil =>
    intro scopes resolved uses errors resolves
    cases resolves
    exact also
  | cons stmt first ih =>
    intro scopes resolved uses errors resolves
    obtain ⟨⟨found, inner⟩, _, _, _, _, here, goesOn, rfl, rfl⟩ := exists_of_bind_ok resolves
    obtain ⟨⟨others, outer⟩, _, _, _, _, there, same, rfl, rfl⟩ := exists_of_bind_ok goesOn
    cases same
    simp only [List.append_nil, List.append_assoc]
    refine bind_ok here ?_
    rw [← List.append_nil (_ ++ usesBehind), ← List.append_nil (_ ++ errorsBehind)]
    exact bind_ok (ih there) rfl

end Lox
