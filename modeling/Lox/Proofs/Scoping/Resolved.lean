import Lox.Scope
import Lox.Proofs.Scoping.Shape

/-! What resolving gives where it meets no error.

The tree is the same but for its distances, and each use is located: it has the
distance to the nearest region that declares its name. Only an assignment to the
pending variable itself, whose declaration is under way, is located in a region
that does not declare its name yet.
-/

set_option autoImplicit false

namespace Lox

/-- A use has the distance of its name, and does not read the pending variable. -/
def Site.Located (site : Site) : Prop :=
  (site.pending = some site.name.lexeme ∧ site.assigned = true ∧ site.distance = some 0) ∨
  (site.pending ≠ some site.name.lexeme ∧
    site.distance = Region.distance? site.regions site.name.lexeme)

namespace Region

def scope (region : Region) : Scope := region.names.map (·, true)

def scopes (regions : List Region) : Option String → List Scope
  | none => regions.map scope
  | some name => ((name, false) :: (regions.map scope).headD []) :: (regions.map scope).tail

variable {regions : List Region} {name : Token}

theorem ready?_scope (region : Region) (name : String) :
    Scope.ready? region.scope name = if name ∈ region.names then some true else none := by
  unfold scope Scope.ready?
  induction region.names with
  | nil => rfl
  | cons first others ih =>
    rw [List.map_cons, List.lookup_cons, ih]
    by_cases same : name = first
    · simp [same]
    · have differs : (name == first) = false := by simpa using same
      simp [same, differs]

@[simp] theorem declares_scope (region : Region) (name : String) :
    Scope.declares region.scope name = decide (name ∈ region.names) := by
  rw [Scope.declares, ready?_scope]
  by_cases member : name ∈ region.names <;> simp [member]

theorem distance?_scopes :
    Scope.distance? (scopes regions none) name = distance? regions name.lexeme := by
  unfold Scope.distance? distance? scopes
  rw [List.findIdx?_map]
  apply congrArg (fun test => List.findIdx? test regions)
  funext region
  exact declares_scope region name.lexeme

theorem distance?_scopes_of_ne {pending : String} (differs : pending ≠ name.lexeme) :
    Scope.distance? (scopes regions (some pending)) name = distance? regions name.lexeme := by
  rw [← distance?_scopes]
  have hidden : (name.lexeme == pending) = false := by simpa using differs.symm
  cases regions with
  | nil => simp [Scope.distance?, scopes, Scope.declares, Scope.ready?, List.lookup_cons, hidden]
  | cons inner outer =>
    simp [Scope.distance?, scopes, Scope.declares, Scope.ready?, List.lookup_cons, hidden,
      List.findIdx?_cons]

theorem distance?_scopes_pending :
    Scope.distance? (scopes regions (some name.lexeme)) name = some 0 := by
  simp [Scope.distance?, scopes, Scope.declares, Scope.ready?, List.findIdx?_cons]

theorem unready_scopes_pending : Scope.unready (scopes regions (some name.lexeme)) name = true := by
  simp [Scope.unready, scopes, Scope.ready?]

theorem mark_ready : Scope.mark name true (scopes regions none) = scopes (declare name regions) none := by
  cases regions <;> rfl

theorem mark_unready :
    Scope.mark name false (scopes regions none) = scopes regions (pending? regions name) := by
  cases regions <;> rfl

theorem ofParams_eq (params : List Token) :
    Scope.ofParams params = (params.map (·.lexeme)).reverse.map (·, true) := by
  have collected : ∀ (params : List Token) (scope : Scope),
      params.foldl (fun scope param => (param.lexeme, true) :: scope) scope =
        (params.map (·.lexeme)).reverse.map (·, true) ++ scope := by
    intro params
    induction params with
    | nil => exact fun _ => rfl
    | cons first others ih =>
      intro scope
      rw [List.foldl_cons, ih]
      simp
  rw [Scope.ofParams, collected, List.append_nil]

theorem scopes_function (params : List Token) (body : List Stmt) :
    Scope.ofParams params :: scopes regions none = scopes (ofFunction params body :: regions) none := by
  rw [ofParams_eq]
  rfl

theorem located_of_read {pending : Option String}
    (ready : Scope.unready (scopes regions pending) name = false) :
    Site.Located ⟨regions, pending, false, name, Scope.distance? (scopes regions pending) name⟩ := by
  cases pending with
  | none => exact .inr ⟨nofun, distance?_scopes⟩
  | some pending =>
    -- A read of the pending variable is an error.
    have differs : pending ≠ name.lexeme := by
      rintro rfl
      rw [unready_scopes_pending] at ready
      cases ready
    exact .inr ⟨fun same => differs (Option.some.inj same), distance?_scopes_of_ne differs⟩

theorem located_of_assign (pending : Option String) :
    Site.Located ⟨regions, pending, true, name, Scope.distance? (scopes regions pending) name⟩ := by
  cases pending with
  | none => exact .inr ⟨nofun, distance?_scopes⟩
  | some pending =>
    -- The resolver has the pending variable in its scope already, the regions do not.
    by_cases same : pending = name.lexeme
    · subst same
      exact .inl ⟨rfl, rfl, distance?_scopes_pending⟩
    · exact .inr ⟨fun clash => same (Option.some.inj clash), distance?_scopes_of_ne same⟩

end Region

namespace Resolution

variable {α β : Type}

def Gives (resolution : Resolution α) (good : α → Prop) : Prop :=
  ∀ value uses, resolution = .ok value uses [] → good value

theorem gives_pure {good : α → Prop} {value : α} (holds : good value) :
    Gives (Pure.pure value : Resolution α) good := by
  intro found uses same
  cases same
  exact holds

theorem Gives.bind {resolution : Resolution α} {next : α → Resolution β} {good : α → Prop}
    {better : β → Prop} (gives : resolution.Gives good)
    (goesOn : ∀ value, good value → (next value).Gives better) :
    Gives (resolution >>= next) better := by
  intro value uses same
  change Resolution.bind resolution next = _ at same
  cases resolution with
  | malformed shape errors => cases same
  | ok first firstUses errors =>
    rw [Resolution.bind] at same
    cases answer : next first with
    | malformed shape errors =>
      rw [answer] at same
      cases same
    | ok found moreUses moreErrors =>
      simp only [answer, Resolution.ok.injEq, List.append_eq_nil_iff] at same
      obtain ⟨rfl, _, rfl, rfl⟩ := same
      exact goesOn first (gives first firstUses rfl) found moreUses answer

theorem gives_noteIf {condition : Bool} {error : ScopeError} :
    (noteIf condition error).Gives fun _ => condition = false := by
  intro value uses same
  cases condition with
  | false => rfl
  | true => cases same

theorem gives_useOf {scopes : List Scope} {assigned : Bool} {name : Token} :
    (useOf scopes assigned name).Gives (· = Scope.distance? scopes name) := by
  intro value uses same
  unfold useOf at same
  split at same
  next absent => cases same; exact absent.symm
  next distance found => cases same; exact found.symm

theorem gives_malformed {shape : Malformed} {errors : List ScopeError} {good : α → Prop} :
    (malformed shape errors : Resolution α).Gives good := by
  intro value uses same
  cases same

end Resolution

def Expr.Locates (regions : List Region) (pending : Option String) (expr resolved : Expr) : Prop :=
  resolved.erase = expr.erase ∧ resolved.EveryUse Site.Located regions pending

def Expr.LocatesAll (regions : List Region) (pending : Option String)
    (exprs resolved : List Expr) : Prop :=
  eraseAll resolved = eraseAll exprs ∧ EveryUseIn Site.Located regions pending resolved

section
variable {regions : List Region} {pending : Option String}

mutual

theorem Expr.resolve_locates : ∀ expr : Expr,
    (expr.resolve (Region.scopes regions pending)).Gives (expr.Locates regions pending)
  | .literal _ => Resolution.gives_pure ⟨rfl, trivial⟩
  | .grouping inner =>
    inner.resolve_locates.bind fun _ located =>
      Resolution.gives_pure ⟨congrArg Expr.grouping located.1, located.2⟩
  | .unary operator operand =>
    operand.resolve_locates.bind fun _ located =>
      Resolution.gives_pure ⟨congrArg (Expr.unary operator) located.1, located.2⟩
  | .binary left operator right =>
    left.resolve_locates.bind fun _ first => right.resolve_locates.bind fun _ second =>
      Resolution.gives_pure
        ⟨by simp only [erase, first.1, second.1], first.2, second.2⟩
  | .logical left operator right =>
    left.resolve_locates.bind fun _ first => right.resolve_locates.bind fun _ second =>
      Resolution.gives_pure
        ⟨by simp only [erase, first.1, second.1], first.2, second.2⟩
  | .reference name _ =>
    Resolution.gives_noteIf.bind fun _ ready => Resolution.gives_useOf.bind fun _ same =>
      Resolution.gives_pure ⟨rfl, same ▸ Region.located_of_read ready⟩
  | .assign name value _ =>
    value.resolve_locates.bind fun _ located => Resolution.gives_useOf.bind fun _ same =>
      Resolution.gives_pure ⟨congrArg (Expr.assign name · none) located.1, located.2,
        same ▸ Region.located_of_assign pending⟩
  | .call callee paren arguments =>
    callee.resolve_locates.bind fun _ first => (resolveAll_locates arguments).bind fun _ others =>
      Resolution.gives_pure
        ⟨by simp only [erase, first.1, others.1], first.2, others.2⟩
  | .misplaced _ => Resolution.gives_malformed

theorem Expr.resolveAll_locates : ∀ exprs : List Expr,
    (resolveAll (Region.scopes regions pending) exprs).Gives (LocatesAll regions pending exprs)
  | [] => Resolution.gives_pure ⟨rfl, trivial⟩
  | first :: others =>
    first.resolve_locates.bind fun _ located => (resolveAll_locates others).bind fun _ more =>
      Resolution.gives_pure
        ⟨by simp only [eraseAll, located.1, more.1], located.2, more.2⟩

end

theorem Expr.resolveOption_locates (expr : Option Expr) :
    (resolveOption (Region.scopes regions pending) expr).Gives fun resolved =>
      resolved.map erase = expr.map erase ∧
        ∀ expr ∈ resolved, expr.EveryUse Site.Located regions pending := by
  cases expr with
  | none => exact Resolution.gives_pure ⟨rfl, by simp⟩
  | some expr =>
    exact expr.resolve_locates.bind fun _ located =>
      Resolution.gives_pure ⟨congrArg some located.1, by simpa using located.2⟩

end

/-- The same statement with a distance at each use, and the scopes behind it. -/
def Stmt.Locates (regions : List Region) (stmt : Stmt) (result : Stmt × List Scope) : Prop :=
  result.1.erase = stmt.erase ∧ result.1.EveryUse Site.Located regions ∧
    result.2 = Region.scopes (stmt.behind regions) none

def Stmt.LocatesAll (regions : List Region) (stmts : List Stmt) (resolved : List Stmt) : Prop :=
  eraseAll resolved = eraseAll stmts ∧ EveryUseIn Site.Located regions resolved

/-- What declares nothing leaves the regions as they are. -/
theorem Stmt.behind_eq {stmt : Stmt} {regions : List Region} (nothing : stmt.declared = []) :
    stmt.behind regions = regions := by
  cases stmt with
  | varDecl name initializer => cases nothing
  | funDecl name params body => cases nothing
  | _ => rfl

@[simp] theorem Stmt.behind_erase (stmt : Stmt) (regions : List Region) :
    stmt.erase.behind regions = stmt.behind regions := by
  cases stmt with
  | conditional condition yes no => cases no <;> rfl
  | _ => rfl

theorem Stmt.behind_eq_of_erase {stmt resolved : Stmt} (same : resolved.erase = stmt.erase)
    (regions : List Region) : resolved.behind regions = stmt.behind regions := by
  rw [← resolved.behind_erase, same, stmt.behind_erase]

theorem Region.ofBlock_eq_of_erase {body resolved : List Stmt}
    (same : Stmt.eraseAll resolved = Stmt.eraseAll body) : ofBlock resolved = ofBlock body := by
  unfold ofBlock
  rw [← Stmt.declaredIn_eraseAll, same, Stmt.declaredIn_eraseAll]

theorem Region.ofFunction_eq_of_erase {params : List Token} {body resolved : List Stmt}
    (same : Stmt.eraseAll resolved = Stmt.eraseAll body) :
    ofFunction params resolved = ofFunction params body := by
  unfold ofFunction
  rw [← Stmt.declaredIn_eraseAll, same, Stmt.declaredIn_eraseAll]

namespace Stmt

variable {regions : List Region} {inFunction : Bool}

theorem resolve_locates_varDecl (name : Token) (initializer : Option Expr) :
    ((Stmt.varDecl name initializer).resolve (Region.scopes regions none) inFunction).Gives
      ((Stmt.varDecl name initializer).Locates regions) := by
  rw [resolve, Region.mark_unready]
  refine (Expr.resolveOption_locates initializer).bind fun resolved located => ?_
  refine Resolution.gives_pure ⟨congrArg (Stmt.varDecl name) located.1, ?_, Region.mark_ready⟩
  cases resolved with
  | none => trivial
  | some expr => exact located.2 expr rfl

theorem resolve_locates_ret (keyword : Token) (value : Option Expr) :
    ((Stmt.ret keyword value).resolve (Region.scopes regions none) inFunction).Gives
      ((Stmt.ret keyword value).Locates regions) := by
  rw [resolve]
  refine Resolution.gives_noteIf.bind fun _ _ => ?_
  refine (Expr.resolveOption_locates value).bind fun resolved located => ?_
  refine Resolution.gives_pure ⟨congrArg (Stmt.ret keyword) located.1, ?_, rfl⟩
  cases resolved with
  | none => trivial
  | some expr => exact located.2 expr rfl

theorem Locates.scopes_eq {stmt : Stmt} {result : Stmt × List Scope}
    (located : stmt.Locates regions result) (nothing : stmt.declared = []) :
    result.2 = Region.scopes regions none := by
  rw [located.2.2, behind_eq nothing]

theorem locates_block {body : List Stmt} {result : List Stmt × List Scope}
    (located : LocatesAll (Region.ofBlock body :: regions) body result.1) :
    (Stmt.block body).Locates regions (.block result.1, Region.scopes regions none) := by
  refine ⟨congrArg Stmt.block located.1, ?_, rfl⟩
  rw [EveryUse, Region.ofBlock_eq_of_erase located.1]
  exact located.2

theorem resolve_locates_funDecl {name : Token} {params : List Token} {body : List Stmt}
    (gives : (resolveAll (Region.scopes (Region.ofFunction params body ::
        Region.declare name regions) none) true body).Gives fun result =>
      LocatesAll (Region.ofFunction params body :: Region.declare name regions) body result.1) :
    ((Stmt.funDecl name params body).resolve (Region.scopes regions none) inFunction).Gives
      ((Stmt.funDecl name params body).Locates regions) := by
  rw [resolve, Region.mark_ready]
  dsimp only
  rw [Region.scopes_function params body]
  refine gives.bind fun result located => Resolution.gives_pure ?_
  refine ⟨congrArg (Stmt.funDecl name params) located.1, ?_, rfl⟩
  rw [EveryUse, Region.ofFunction_eq_of_erase located.1]
  exact located.2

theorem locates_all {first : Stmt} {others : List Stmt} {result : Stmt × List Scope}
    {more : List Stmt} (located : first.Locates regions result)
    (locatedOthers : LocatesAll (first.behind regions) others more) :
    LocatesAll regions (first :: others) (result.1 :: more) := by
  refine ⟨by rw [eraseAll, eraseAll, located.1, locatedOthers.1], located.2.1, ?_⟩
  rw [behind_eq_of_erase located.1]
  exact locatedOthers.2

mutual

theorem resolve_locates : ∀ (stmt : Stmt) {regions : List Region} {inFunction : Bool},
    stmt.Proper →
    (stmt.resolve (Region.scopes regions none) inFunction).Gives (stmt.Locates regions)
  | .expression inner, _, _, _ =>
    inner.resolve_locates.bind fun _ located =>
      Resolution.gives_pure ⟨congrArg Stmt.expression located.1, located.2, rfl⟩
  | .print inner, _, _, _ =>
    inner.resolve_locates.bind fun _ located =>
      Resolution.gives_pure ⟨congrArg Stmt.print located.1, located.2, rfl⟩
  | .varDecl name initializer, _, _, _ => resolve_locates_varDecl name initializer
  | .block body, _, _, proper =>
    (resolveAll_locates body proper).bind fun _ located =>
      Resolution.gives_pure (locates_block located)
  | .conditional condition yes none, regions, _, proper =>
    condition.resolve_locates.bind fun _ tested =>
      (yes.resolve_locates proper.2.1).bind fun _ located =>
        Resolution.gives_pure ⟨by simp only [erase, tested.1, located.1],
          ⟨tested.2, located.2.1⟩, located.scopes_eq proper.2.2⟩
  | .conditional condition yes (some no), regions, _, proper =>
    condition.resolve_locates.bind fun _ tested =>
      (yes.resolve_locates proper.2.1.1).bind fun first located =>
        -- The first branch declares nothing, so the second one meets the same scopes.
        Resolution.Gives.bind
          ((located.scopes_eq proper.2.1.2) ▸ no.resolve_locates proper.2.2.1)
          fun _ other =>
            Resolution.gives_pure ⟨by simp only [erase, tested.1, located.1, other.1],
              ⟨tested.2, located.2.1, other.2.1⟩, other.scopes_eq proper.2.2.2⟩
  | .loop condition body, regions, _, proper =>
    condition.resolve_locates.bind fun _ tested =>
      (body.resolve_locates proper.2.1).bind fun _ located =>
        Resolution.gives_pure ⟨by simp only [erase, tested.1, located.1],
          ⟨tested.2, located.2.1⟩, located.scopes_eq proper.2.2⟩
  | .funDecl _ _ body, _, _, proper => resolve_locates_funDecl (resolveAll_locates body proper)
  | .ret keyword value, _, _, _ => resolve_locates_ret keyword value
  | .misplaced _, _, _, _ => Resolution.gives_malformed

theorem resolveAll_locates : ∀ (stmts : List Stmt) {regions : List Region} {inFunction : Bool},
    AllProper stmts →
    (resolveAll (Region.scopes regions none) inFunction stmts).Gives
      fun result => LocatesAll regions stmts result.1
  | [], _, _, _ => Resolution.gives_pure ⟨rfl, trivial⟩
  | first :: others, _, _, proper =>
    (first.resolve_locates proper.1).bind fun _ located =>
      Resolution.Gives.bind (located.2.2 ▸ resolveAll_locates others proper.2) fun _ more =>
        Resolution.gives_pure (locates_all located more)

end

end Stmt

/-- A program that resolves without errors keeps its tree, and each use gets the
distance of its name. -/
theorem resolveProgram_locates {statements : List Stmt} (proper : Stmt.AllProper statements) :
    (resolveProgram statements).Gives (Stmt.LocatesAll [] statements) := by
  have gives : (Stmt.resolveAll (Region.scopes [] none) false statements).Gives fun result =>
      Stmt.LocatesAll [] statements result.1 :=
    Stmt.resolveAll_locates statements proper
  exact gives.bind fun _ located => Resolution.gives_pure located

end Lox
