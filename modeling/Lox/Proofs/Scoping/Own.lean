import Lox.Proofs.Scoping.Resolved

/-! Programs in which no local variable is assigned in its own initializer.

In these each use has the distance of its name, without exception.
-/

set_option autoImplicit false

namespace Lox

mutual

def Expr.Assigns (name : String) : Expr → Prop
  | .literal _ | .reference .. | .misplaced _ => False
  | .grouping inner => inner.Assigns name
  | .unary _ operand => operand.Assigns name
  | .binary left _ right => left.Assigns name ∨ right.Assigns name
  | .logical left _ right => left.Assigns name ∨ right.Assigns name
  | .assign target value _ => target.lexeme = name ∨ value.Assigns name
  | .call callee _ arguments => callee.Assigns name ∨ AnyAssigns name arguments

def Expr.AnyAssigns (name : String) : List Expr → Prop
  | [] => False
  | first :: others => first.Assigns name ∨ AnyAssigns name others

end

mutual

/-- No initializer of a local variable assigns that variable; the variables that a
statement declares itself are local or not as it stands inside a scope or not. -/
def Stmt.OwnFree (inside : Bool) : Stmt → Prop
  | .varDecl name (some initializer) => inside = true → ¬ initializer.Assigns name.lexeme
  | .block body | .funDecl _ _ body => AllOwnFree true body
  | .conditional _ yes none => yes.OwnFree inside
  | .conditional _ yes (some no) => yes.OwnFree inside ∧ no.OwnFree inside
  | .loop _ body => body.OwnFree inside
  | .expression _ | .print _ | .varDecl _ none | .ret .. | .misplaced _ => True

def Stmt.AllOwnFree (inside : Bool) : List Stmt → Prop
  | [] => True
  | first :: others => first.OwnFree inside ∧ AllOwnFree inside others

end

mutual

def Expr.decideAssigns (name : String) : ∀ expr : Expr, Decidable (expr.Assigns name)
  | .literal _ | .reference .. | .misplaced _ => isFalse id
  | .grouping inner => inner.decideAssigns name
  | .unary _ operand => operand.decideAssigns name
  | .binary left _ right =>
    @instDecidableOr _ _ (left.decideAssigns name) (right.decideAssigns name)
  | .logical left _ right =>
    @instDecidableOr _ _ (left.decideAssigns name) (right.decideAssigns name)
  | .assign _ value _ => @instDecidableOr _ _ inferInstance (value.decideAssigns name)
  | .call callee _ arguments =>
    @instDecidableOr _ _ (callee.decideAssigns name) (decideAnyAssigns name arguments)

def Expr.decideAnyAssigns (name : String) : ∀ exprs : List Expr, Decidable (AnyAssigns name exprs)
  | [] => isFalse id
  | first :: others =>
    @instDecidableOr _ _ (first.decideAssigns name) (decideAnyAssigns name others)

end

instance (name : String) (expr : Expr) : Decidable (expr.Assigns name) := expr.decideAssigns name

mutual

def Stmt.decideOwnFree (inside : Bool) : ∀ stmt : Stmt, Decidable (stmt.OwnFree inside)
  | .varDecl name (some initializer) =>
    inferInstanceAs (Decidable (inside = true → ¬ initializer.Assigns name.lexeme))
  | .block body | .funDecl _ _ body => decideAllOwnFree true body
  | .conditional _ yes none => yes.decideOwnFree inside
  | .conditional _ yes (some no) =>
    @instDecidableAnd _ _ (yes.decideOwnFree inside) (no.decideOwnFree inside)
  | .loop _ body => body.decideOwnFree inside
  | .expression _ | .print _ | .varDecl _ none | .ret .. | .misplaced _ => isTrue trivial

def Stmt.decideAllOwnFree (inside : Bool) : ∀ stmts : List Stmt, Decidable (AllOwnFree inside stmts)
  | [] => isTrue trivial
  | first :: others =>
    @instDecidableAnd _ _ (first.decideOwnFree inside) (decideAllOwnFree inside others)

end

instance (inside : Bool) (stmts : List Stmt) : Decidable (Stmt.AllOwnFree inside stmts) :=
  Stmt.decideAllOwnFree inside stmts

def Site.Foreign (site : Site) : Prop :=
  site.assigned = true → site.pending ≠ some site.name.lexeme

def Site.Exact (site : Site) : Prop :=
  site.distance = Region.distance? site.regions site.name.lexeme

theorem Site.exact_of_located {site : Site} (located : site.Located) (foreign : site.Foreign) :
    site.Exact := by
  rcases located with ⟨pending, assigned, _⟩ | ⟨_, same⟩
  · exact absurd pending (foreign assigned)
  · exact same

section
variable {name : String}

mutual

theorem Expr.assigns_erase : ∀ expr : Expr, expr.erase.Assigns name ↔ expr.Assigns name
  | .literal _ | .reference .. | .misplaced _ => Iff.rfl
  | .grouping inner => inner.assigns_erase
  | .unary _ operand => operand.assigns_erase
  | .binary left _ right => or_congr left.assigns_erase right.assigns_erase
  | .logical left _ right => or_congr left.assigns_erase right.assigns_erase
  | .assign _ value _ => or_congr_right value.assigns_erase
  | .call callee _ arguments => or_congr callee.assigns_erase (anyAssigns_eraseAll arguments)

theorem Expr.anyAssigns_eraseAll :
    ∀ exprs : List Expr, AnyAssigns name (eraseAll exprs) ↔ AnyAssigns name exprs
  | [] => Iff.rfl
  | first :: others => or_congr first.assigns_erase (anyAssigns_eraseAll others)

end

end

mutual

theorem Stmt.ownFree_erase : ∀ (stmt : Stmt) {inside : Bool},
    stmt.erase.OwnFree inside ↔ stmt.OwnFree inside
  | .varDecl _ (some initializer), _ => imp_congr_right fun _ => not_congr initializer.assigns_erase
  | .block body, _ => allOwnFree_eraseAll body
  | .funDecl _ _ body, _ => allOwnFree_eraseAll body
  | .conditional _ yes none, _ => yes.ownFree_erase
  | .conditional _ yes (some no), _ => and_congr yes.ownFree_erase no.ownFree_erase
  | .loop _ body, _ => body.ownFree_erase
  | .expression _, _ | .print _, _ | .varDecl _ none, _ | .ret .., _ | .misplaced _, _ => Iff.rfl

theorem Stmt.allOwnFree_eraseAll : ∀ (stmts : List Stmt) {inside : Bool},
    AllOwnFree inside (eraseAll stmts) ↔ AllOwnFree inside stmts
  | [], _ => Iff.rfl
  | first :: others, _ => and_congr first.ownFree_erase (allOwnFree_eraseAll others)

end

section
variable {regions : List Region} {pending : Option String}

mutual

theorem Expr.everyUse_foreign : ∀ expr : Expr, (∀ name ∈ pending, ¬ expr.Assigns name) →
    expr.EveryUse Site.Foreign regions pending
  | .literal _, _ | .misplaced _, _ => trivial
  | .reference .., _ => nofun
  | .grouping inner, free => inner.everyUse_foreign free
  | .unary _ operand, free => operand.everyUse_foreign free
  | .binary left _ right, free =>
    ⟨left.everyUse_foreign fun name own assigns => free name own (.inl assigns),
      right.everyUse_foreign fun name own assigns => free name own (.inr assigns)⟩
  | .logical left _ right, free =>
    ⟨left.everyUse_foreign fun name own assigns => free name own (.inl assigns),
      right.everyUse_foreign fun name own assigns => free name own (.inr assigns)⟩
  | .assign target value _, free =>
    ⟨value.everyUse_foreign fun name own assigns => free name own (.inr assigns),
      fun _ own => free target.lexeme own (.inl rfl)⟩
  | .call callee _ arguments, free =>
    ⟨callee.everyUse_foreign fun name own assigns => free name own (.inl assigns),
      everyUseIn_foreign arguments fun name own assigns => free name own (.inr assigns)⟩

theorem Expr.everyUseIn_foreign : ∀ exprs : List Expr,
    (∀ name ∈ pending, ¬ AnyAssigns name exprs) → EveryUseIn Site.Foreign regions pending exprs
  | [], _ => trivial
  | first :: others, free =>
    ⟨first.everyUse_foreign fun name own assigns => free name own (.inl assigns),
      everyUseIn_foreign others fun name own assigns => free name own (.inr assigns)⟩

end

end

theorem Expr.everyUse_foreign_none (expr : Expr) (regions : List Region) :
    expr.EveryUse Site.Foreign regions none :=
  expr.everyUse_foreign (by simp)

theorem Stmt.everyUse_foreign_varDecl {name : Token} {initializer : Expr} {regions : List Region}
    (free : (Stmt.varDecl name (some initializer)).OwnFree !regions.isEmpty) :
    (Stmt.varDecl name (some initializer)).EveryUse Site.Foreign regions := by
  apply initializer.everyUse_foreign
  cases regions with
  | nil => simp [Region.pending?]
  | cons inner outer => simpa [Region.pending?] using free rfl

theorem Region.declare_isEmpty (name : Token) (regions : List Region) :
    (declare name regions).isEmpty = regions.isEmpty := by
  cases regions <;> rfl

theorem Stmt.behind_isEmpty (stmt : Stmt) (regions : List Region) :
    (stmt.behind regions).isEmpty = regions.isEmpty := by
  cases stmt with
  | varDecl name initializer => exact Region.declare_isEmpty name regions
  | funDecl name params body => exact Region.declare_isEmpty name regions
  | _ => rfl

mutual

theorem Stmt.everyUse_foreign : ∀ (stmt : Stmt) {regions : List Region},
    stmt.OwnFree !regions.isEmpty → stmt.EveryUse Site.Foreign regions
  | .expression inner, regions, _ | .print inner, regions, _ =>
    inner.everyUse_foreign_none regions
  | .varDecl _ none, _, _ | .ret _ none, _, _ | .misplaced _, _, _ => trivial
  | .varDecl _ (some _), _, free => everyUse_foreign_varDecl free
  | .block body, _, free => everyUseIn_foreign body free
  | .conditional condition yes none, regions, free =>
    ⟨condition.everyUse_foreign_none regions, yes.everyUse_foreign free⟩
  | .conditional condition yes (some no), regions, free =>
    ⟨condition.everyUse_foreign_none regions, yes.everyUse_foreign free.1,
      no.everyUse_foreign free.2⟩
  | .loop condition body, regions, free =>
    ⟨condition.everyUse_foreign_none regions, body.everyUse_foreign free⟩
  | .funDecl _ _ body, _, free => everyUseIn_foreign body free
  | .ret _ (some value), regions, _ => value.everyUse_foreign_none regions

theorem Stmt.everyUseIn_foreign : ∀ (stmts : List Stmt) {regions : List Region},
    AllOwnFree (!regions.isEmpty) stmts → EveryUseIn Site.Foreign regions stmts
  | [], _, _ => trivial
  | first :: others, regions, free =>
    ⟨first.everyUse_foreign free.1,
      everyUseIn_foreign others (first.behind_isEmpty regions ▸ free.2)⟩

end

/-- Where no initializer assigns its own variable, each use has the distance of its
name. -/
theorem Stmt.LocatesAll.exact {statements resolved : List Stmt}
    (located : Stmt.LocatesAll [] statements resolved)
    (free : Stmt.AllOwnFree false statements) : Stmt.EveryUseIn Site.Exact [] resolved := by
  -- Both trees are the same without their distances, which the condition does not see.
  have freeResolved : Stmt.AllOwnFree false resolved := by
    rw [← Stmt.allOwnFree_eraseAll, located.1, Stmt.allOwnFree_eraseAll]
    exact free
  exact Stmt.everyUseIn_of_both (fun _ => Site.exact_of_located) resolved located.2
    (Stmt.everyUseIn_foreign resolved freeResolved)

end Lox
