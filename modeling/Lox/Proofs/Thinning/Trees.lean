import Mathlib.Data.Option.Defs
import Lox.Syntax.Tree

/-! Leaving out scopes in which nothing is declared.

A list says of each scope around a tree whether it is kept, the innermost scope first;
the scopes beyond the list are. No use leads to a scope that is left out, and nothing is
declared there, so without these scopes only the distances that lead past them change.
-/

set_option autoImplicit false

namespace Lox

def keptAt (kept : List Bool) (distance : Nat) : Bool := kept.getD distance true

def shortened : List Bool → Nat → Nat
  | [], distance => distance
  | _ :: _, 0 => 0
  | keep :: kept, distance + 1 => shortened kept distance + keep.toNat

section
variable {kept : List Bool} {distance : Nat}

theorem keptAt_succ (kept : List Bool) (distance : Nat) :
    keptAt kept (distance + 1) = keptAt kept.tail distance := by
  cases kept <;> rfl

theorem shortened_zero (kept : List Bool) : shortened kept 0 = 0 := by
  cases kept <;> rfl

theorem shortened_succ (keeps : keptAt kept 0 = true) (distance : Nat) :
    shortened kept (distance + 1) = shortened kept.tail distance + 1 := by
  cases kept with
  | nil => rfl
  | cons keep kept =>
    obtain rfl : keep = true := keeps
    rfl

theorem shortened_eq (all : ∀ keep ∈ kept, keep = true) (distance : Nat) :
    shortened kept distance = distance := by
  induction kept generalizing distance with
  | nil => rfl
  | cons keep kept ih =>
    obtain rfl : keep = true := all keep List.mem_cons_self
    cases distance with
    | zero => rfl
    | succ distance =>
      exact congrArg (· + 1) (ih (fun other member => all other (.tail _ member)) distance)

theorem keptAt_eq (all : ∀ keep ∈ kept, keep = true) (distance : Nat) :
    keptAt kept distance = true := by
  unfold keptAt
  rw [List.getD_eq_getElem?_getD]
  cases found : kept[distance]? with
  | none => rfl
  | some keep => exact all keep (List.mem_of_getElem? found)

end

/-- A use, once with the distance that it has among all scopes and once among those that
are kept. -/
def ThinnedUse (kept : List Bool) (distance slim : Option Nat) : Prop :=
  (∀ steps ∈ distance, keptAt kept steps = true) ∧ slim = distance.map (shortened kept)

namespace ThinnedUse

variable {kept : List Bool} {distance slim : Option Nat}

theorem keep (use : ThinnedUse kept distance slim) :
    ThinnedUse (true :: kept) (distance.map (· + 1)) (slim.map (· + 1)) := by
  obtain ⟨keeps, rfl⟩ := use
  cases distance with
  | none => exact ⟨by simp, rfl⟩
  | some steps => exact ⟨by rintro _ ⟨⟩; exact keeps steps rfl, rfl⟩

theorem skip (use : ThinnedUse kept distance slim) :
    ThinnedUse (false :: kept) (distance.map (· + 1)) slim := by
  obtain ⟨keeps, rfl⟩ := use
  cases distance with
  | none => exact ⟨by simp, rfl⟩
  | some steps => exact ⟨by rintro _ ⟨⟩; exact keeps steps rfl, rfl⟩

end ThinnedUse

mutual

/-- The same expression among the scopes that are kept. -/
inductive Expr.Thinned (kept : List Bool) : Expr → Expr → Prop where
  | literal (value : Literal) : Thinned kept (.literal value) (.literal value)
  | grouping {inner slim : Expr} :
      Thinned kept inner slim → Thinned kept (.grouping inner) (.grouping slim)
  | unary {operator : Token} {operand slim : Expr} :
      Thinned kept operand slim → Thinned kept (.unary operator operand) (.unary operator slim)
  | binary {left slim right slimRight : Expr} {operator : Token} :
      Thinned kept left slim → Thinned kept right slimRight →
      Thinned kept (.binary left operator right) (.binary slim operator slimRight)
  | logical {left slim right slimRight : Expr} {operator : Token} :
      Thinned kept left slim → Thinned kept right slimRight →
      Thinned kept (.logical left operator right) (.logical slim operator slimRight)
  | reference {name : Token} {distance slim : Option Nat} :
      ThinnedUse kept distance slim →
      Thinned kept (.reference name distance) (.reference name slim)
  | assign {name : Token} {value slimValue : Expr} {distance slim : Option Nat} :
      Thinned kept value slimValue → ThinnedUse kept distance slim →
      Thinned kept (.assign name value distance) (.assign name slimValue slim)
  | call {callee slim : Expr} {paren : Token} {arguments others : List Expr} :
      Thinned kept callee slim → AllThinned kept arguments others →
      Thinned kept (.call callee paren arguments) (.call slim paren others)
  | misplaced (node : Node) : Thinned kept (.misplaced node) (.misplaced node)

inductive Expr.AllThinned (kept : List Bool) : List Expr → List Expr → Prop where
  | nil : AllThinned kept [] []
  | cons {first slim : Expr} {exprs others : List Expr} :
      Thinned kept first slim → AllThinned kept exprs others →
      AllThinned kept (first :: exprs) (slim :: others)

end

mutual

/-- The same statement among the scopes that are kept. All scopes that it opens are, and
it declares names only in such a scope. -/
inductive Stmt.Thinned : List Bool → Stmt → Stmt → Prop where
  | expression {kept : List Bool} {inner slim : Expr} :
      inner.Thinned kept slim → Thinned kept (.expression inner) (.expression slim)
  | print {kept : List Bool} {inner slim : Expr} :
      inner.Thinned kept slim → Thinned kept (.print inner) (.print slim)
  | varDecl {kept : List Bool} {name : Token} {initializer slim : Option Expr} :
      keptAt kept 0 = true → Option.Rel (Expr.Thinned kept) initializer slim →
      Thinned kept (.varDecl name initializer) (.varDecl name slim)
  | block {kept : List Bool} {body slim : List Stmt} :
      AllThinned (true :: kept) body slim → Thinned kept (.block body) (.block slim)
  | conditional {kept : List Bool} {condition slim : Expr} {yes slimYes : Stmt} :
      condition.Thinned kept slim → Thinned kept yes slimYes →
      Thinned kept (.conditional condition yes none) (.conditional slim slimYes none)
  | alternative {kept : List Bool} {condition slim : Expr} {yes slimYes no slimNo : Stmt} :
      condition.Thinned kept slim → Thinned kept yes slimYes → Thinned kept no slimNo →
      Thinned kept (.conditional condition yes (some no)) (.conditional slim slimYes (some slimNo))
  | loop {kept : List Bool} {condition slim : Expr} {body slimBody : Stmt} :
      condition.Thinned kept slim → Thinned kept body slimBody →
      Thinned kept (.loop condition body) (.loop slim slimBody)
  | funDecl {kept : List Bool} {name : Token} {params : List Token} {body slim : List Stmt} :
      keptAt kept 0 = true → AllThinned (true :: kept) body slim →
      Thinned kept (.funDecl name params body) (.funDecl name params slim)
  | ret {kept : List Bool} {keyword : Token} {value slim : Option Expr} :
      Option.Rel (Expr.Thinned kept) value slim → Thinned kept (.ret keyword value) (.ret keyword slim)
  | misplaced {kept : List Bool} (node : Node) : Thinned kept (.misplaced node) (.misplaced node)

inductive Stmt.AllThinned : List Bool → List Stmt → List Stmt → Prop where
  | nil {kept : List Bool} : AllThinned kept [] []
  | cons {kept : List Bool} {first slim : Stmt} {stmts others : List Stmt} :
      Thinned kept first slim → AllThinned kept stmts others →
      AllThinned kept (first :: stmts) (slim :: others)

end

/-! ### Where all scopes are kept -/

section
variable {kept : List Bool}

theorem ThinnedUse.refl (all : ∀ keep ∈ kept, keep = true) (distance : Option Nat) :
    ThinnedUse kept distance distance := by
  refine ⟨fun steps _ => keptAt_eq all steps, ?_⟩
  rw [show shortened kept = id from funext (shortened_eq all), Option.map_id, id]

mutual

theorem Expr.thinned_refl (all : ∀ keep ∈ kept, keep = true) : ∀ expr : Expr, expr.Thinned kept expr
  | .literal value => .literal value
  | .grouping inner => .grouping (inner.thinned_refl all)
  | .unary _ operand => .unary (operand.thinned_refl all)
  | .binary left _ right => .binary (left.thinned_refl all) (right.thinned_refl all)
  | .logical left _ right => .logical (left.thinned_refl all) (right.thinned_refl all)
  | .reference _ distance => .reference (.refl all distance)
  | .assign _ value distance => .assign (value.thinned_refl all) (.refl all distance)
  | .call callee _ arguments => .call (callee.thinned_refl all) (allThinned_refl all arguments)
  | .misplaced node => .misplaced node

theorem Expr.allThinned_refl (all : ∀ keep ∈ kept, keep = true) :
    ∀ exprs : List Expr, AllThinned kept exprs exprs
  | [] => .nil
  | first :: others => .cons (first.thinned_refl all) (allThinned_refl all others)

end

theorem Expr.thinned_refl_option (all : ∀ keep ∈ kept, keep = true) :
    ∀ expr : Option Expr, Option.Rel (Thinned kept) expr expr
  | none => .none
  | some expr => .some (expr.thinned_refl all)

end

mutual

theorem Stmt.thinned_refl : ∀ (stmt : Stmt) {kept : List Bool}, (∀ keep ∈ kept, keep = true) →
    stmt.Thinned kept stmt
  | .expression inner, _, all => .expression (inner.thinned_refl all)
  | .print inner, _, all => .print (inner.thinned_refl all)
  | .varDecl _ initializer, _, all =>
    .varDecl (keptAt_eq all 0) (Expr.thinned_refl_option all initializer)
  | .block body, _, all => .block (allThinned_refl body (List.forall_mem_cons.mpr ⟨rfl, all⟩))
  | .conditional condition yes none, _, all =>
    .conditional (condition.thinned_refl all) (yes.thinned_refl all)
  | .conditional condition yes (some no), _, all =>
    .alternative (condition.thinned_refl all) (yes.thinned_refl all) (no.thinned_refl all)
  | .loop condition body, _, all => .loop (condition.thinned_refl all) (body.thinned_refl all)
  | .funDecl _ _ body, _, all =>
    .funDecl (keptAt_eq all 0) (allThinned_refl body (List.forall_mem_cons.mpr ⟨rfl, all⟩))
  | .ret _ value, _, all => .ret (Expr.thinned_refl_option all value)
  | .misplaced node, _, _ => .misplaced node

theorem Stmt.allThinned_refl : ∀ (stmts : List Stmt) {kept : List Bool},
    (∀ keep ∈ kept, keep = true) → AllThinned kept stmts stmts
  | [], _, _ => .nil
  | first :: others, _, all => .cons (first.thinned_refl all) (allThinned_refl others all)

end

end Lox
