import Lox.Syntax.Tree

/-! Uses of names and the scopes around them.

A region is what a scope comes to at one place of its text. A tree is walked with
the regions around it, and a property of uses is asked of each use in it, with the
regions at that use. Declarations stand only where statements follow one another,
so a tree whose branches and loop bodies declare nothing opens its regions and
leaves them in the order of its text.
-/

set_option autoImplicit false

namespace Lox

def Stmt.declared : Stmt → List String
  | .varDecl name _ => [name.lexeme]
  | .funDecl name _ _ => [name.lexeme]
  | _ => []

def Stmt.declaredIn (body : List Stmt) : List String := body.flatMap Stmt.declared

/-- A scope at one place of its text: the names that it declares before, the latest
first, and all names that it declares anywhere. -/
structure Region where
  names : List String
  whole : List String

namespace Region

def ofBlock (body : List Stmt) : Region := ⟨[], Stmt.declaredIn body⟩

def ofFunction (params : List Token) (body : List Stmt) : Region :=
  ⟨(params.map (·.lexeme)).reverse, params.map (·.lexeme) ++ Stmt.declaredIn body⟩

def declare (name : Token) : List Region → List Region
  | [] => []
  | inner :: outer => { inner with names := name.lexeme :: inner.names } :: outer

def distance? (regions : List Region) (name : String) : Option Nat :=
  regions.findIdx? (name ∈ ·.names)

def pending? (regions : List Region) (name : Token) : Option String :=
  regions.head?.map fun _ => name.lexeme

end Region

def Stmt.behind (regions : List Region) : Stmt → List Region
  | .varDecl name _ => Region.declare name regions
  | .funDecl name _ _ => Region.declare name regions
  | _ => regions

/-- A use of a name in its place. Inside the initializer of a local variable, that
variable is pending. -/
structure Site where
  regions : List Region
  pending : Option String
  assigned : Bool
  name : Token
  distance : Option Nat

section
variable (allowed : Site → Prop)

mutual

def Expr.EveryUse (regions : List Region) (pending : Option String) : Expr → Prop
  | .literal _ => True
  | .grouping inner => inner.EveryUse regions pending
  | .unary _ operand => operand.EveryUse regions pending
  | .binary left _ right => left.EveryUse regions pending ∧ right.EveryUse regions pending
  | .logical left _ right => left.EveryUse regions pending ∧ right.EveryUse regions pending
  | .reference name distance => allowed ⟨regions, pending, false, name, distance⟩
  | .assign name value distance =>
    value.EveryUse regions pending ∧ allowed ⟨regions, pending, true, name, distance⟩
  | .call callee _ arguments =>
    callee.EveryUse regions pending ∧ EveryUseIn regions pending arguments
  | .misplaced _ => True

def Expr.EveryUseIn (regions : List Region) (pending : Option String) : List Expr → Prop
  | [] => True
  | first :: others => first.EveryUse regions pending ∧ EveryUseIn regions pending others

end

mutual

def Stmt.EveryUse (regions : List Region) : Stmt → Prop
  | .expression inner => inner.EveryUse allowed regions none
  | .print inner => inner.EveryUse allowed regions none
  | .varDecl _ none => True
  | .varDecl name (some initializer) =>
    initializer.EveryUse allowed regions (Region.pending? regions name)
  | .block body => EveryUseIn (Region.ofBlock body :: regions) body
  | .conditional condition yes none =>
    condition.EveryUse allowed regions none ∧ yes.EveryUse regions
  | .conditional condition yes (some no) =>
    condition.EveryUse allowed regions none ∧ yes.EveryUse regions ∧ no.EveryUse regions
  | .loop condition body => condition.EveryUse allowed regions none ∧ body.EveryUse regions
  | .funDecl name params body =>
    EveryUseIn (Region.ofFunction params body :: Region.declare name regions) body
  | .ret _ none => True
  | .ret _ (some value) => value.EveryUse allowed regions none
  | .misplaced _ => True

def Stmt.EveryUseIn (regions : List Region) : List Stmt → Prop
  | [] => True
  | first :: others => first.EveryUse regions ∧ EveryUseIn (first.behind regions) others

end

end

section
variable (allowed : Site → Prop) [DecidablePred allowed]

mutual

def Expr.decideEveryUse (regions : List Region) (pending : Option String) :
    ∀ expr : Expr, Decidable (expr.EveryUse allowed regions pending)
  | .literal _ | .misplaced _ => isTrue trivial
  | .grouping inner => inner.decideEveryUse regions pending
  | .unary _ operand => operand.decideEveryUse regions pending
  | .binary left _ right =>
    @instDecidableAnd _ _ (left.decideEveryUse regions pending) (right.decideEveryUse regions pending)
  | .logical left _ right =>
    @instDecidableAnd _ _ (left.decideEveryUse regions pending) (right.decideEveryUse regions pending)
  | .reference name distance =>
    inferInstanceAs (Decidable (allowed ⟨regions, pending, false, name, distance⟩))
  | .assign name value distance =>
    @instDecidableAnd _ _ (value.decideEveryUse regions pending)
      (inferInstanceAs (Decidable (allowed ⟨regions, pending, true, name, distance⟩)))
  | .call callee _ arguments =>
    @instDecidableAnd _ _ (callee.decideEveryUse regions pending)
      (decideEveryUseIn regions pending arguments)

def Expr.decideEveryUseIn (regions : List Region) (pending : Option String) :
    ∀ exprs : List Expr, Decidable (EveryUseIn allowed regions pending exprs)
  | [] => isTrue trivial
  | first :: others =>
    @instDecidableAnd _ _ (first.decideEveryUse regions pending)
      (decideEveryUseIn regions pending others)

end

mutual

def Stmt.decideEveryUse : ∀ (stmt : Stmt) (regions : List Region),
    Decidable (stmt.EveryUse allowed regions)
  | .expression inner, regions | .print inner, regions => inner.decideEveryUse allowed regions none
  | .varDecl _ none, _ | .ret _ none, _ | .misplaced _, _ => isTrue trivial
  | .varDecl name (some initializer), regions =>
    initializer.decideEveryUse allowed regions (Region.pending? regions name)
  | .block body, regions => decideEveryUseIn body (Region.ofBlock body :: regions)
  | .conditional condition yes none, regions =>
    @instDecidableAnd _ _ (condition.decideEveryUse allowed regions none)
      (yes.decideEveryUse regions)
  | .conditional condition yes (some no), regions =>
    @instDecidableAnd _ _ (condition.decideEveryUse allowed regions none)
      (@instDecidableAnd _ _ (yes.decideEveryUse regions) (no.decideEveryUse regions))
  | .loop condition body, regions =>
    @instDecidableAnd _ _ (condition.decideEveryUse allowed regions none)
      (body.decideEveryUse regions)
  | .funDecl name params body, regions =>
    decideEveryUseIn body (Region.ofFunction params body :: Region.declare name regions)
  | .ret _ (some value), regions => value.decideEveryUse allowed regions none

def Stmt.decideEveryUseIn : ∀ (stmts : List Stmt) (regions : List Region),
    Decidable (EveryUseIn allowed regions stmts)
  | [], _ => isTrue trivial
  | first :: others, regions =>
    @instDecidableAnd _ _ (first.decideEveryUse regions)
      (decideEveryUseIn others (first.behind regions))

end

instance (regions : List Region) (stmts : List Stmt) :
    Decidable (Stmt.EveryUseIn allowed regions stmts) :=
  Stmt.decideEveryUseIn allowed stmts regions

end

section
variable {allowed permitted wanted : Site → Prop}

mutual

theorem Expr.everyUse_of_both
    (both : ∀ site, allowed site → permitted site → wanted site) {regions : List Region}
    {pending : Option String} : ∀ expr : Expr, expr.EveryUse allowed regions pending →
    expr.EveryUse permitted regions pending → expr.EveryUse wanted regions pending
  | .literal _, _, _ => trivial
  | .grouping inner, first, second => inner.everyUse_of_both both first second
  | .unary _ operand, first, second => operand.everyUse_of_both both first second
  | .binary left _ right, first, second =>
    ⟨left.everyUse_of_both both first.1 second.1, right.everyUse_of_both both first.2 second.2⟩
  | .logical left _ right, first, second =>
    ⟨left.everyUse_of_both both first.1 second.1, right.everyUse_of_both both first.2 second.2⟩
  | .reference .., first, second => both _ first second
  | .assign _ value _, first, second =>
    ⟨value.everyUse_of_both both first.1 second.1, both _ first.2 second.2⟩
  | .call callee _ arguments, first, second =>
    ⟨callee.everyUse_of_both both first.1 second.1,
      everyUseIn_of_both both arguments first.2 second.2⟩
  | .misplaced _, _, _ => trivial

theorem Expr.everyUseIn_of_both
    (both : ∀ site, allowed site → permitted site → wanted site) {regions : List Region}
    {pending : Option String} : ∀ exprs : List Expr, EveryUseIn allowed regions pending exprs →
    EveryUseIn permitted regions pending exprs → EveryUseIn wanted regions pending exprs
  | [], _, _ => trivial
  | first :: others, left, right =>
    ⟨first.everyUse_of_both both left.1 right.1, everyUseIn_of_both both others left.2 right.2⟩

end

mutual

theorem Stmt.everyUse_of_both
    (both : ∀ site, allowed site → permitted site → wanted site) :
    ∀ (stmt : Stmt) {regions : List Region}, stmt.EveryUse allowed regions →
    stmt.EveryUse permitted regions → stmt.EveryUse wanted regions
  | .expression inner, _, first, second => inner.everyUse_of_both both first second
  | .print inner, _, first, second => inner.everyUse_of_both both first second
  | .varDecl _ none, _, _, _ => trivial
  | .varDecl _ (some initializer), _, first, second =>
    initializer.everyUse_of_both both first second
  | .block body, _, first, second => everyUseIn_of_both both body first second
  | .conditional condition yes none, _, first, second =>
    ⟨condition.everyUse_of_both both first.1 second.1, yes.everyUse_of_both both first.2 second.2⟩
  | .conditional condition yes (some no), _, first, second =>
    ⟨condition.everyUse_of_both both first.1 second.1,
      yes.everyUse_of_both both first.2.1 second.2.1, no.everyUse_of_both both first.2.2 second.2.2⟩
  | .loop condition body, _, first, second =>
    ⟨condition.everyUse_of_both both first.1 second.1, body.everyUse_of_both both first.2 second.2⟩
  | .funDecl _ _ body, _, first, second => everyUseIn_of_both both body first second
  | .ret _ none, _, _, _ => trivial
  | .ret _ (some value), _, first, second => value.everyUse_of_both both first second
  | .misplaced _, _, _, _ => trivial

theorem Stmt.everyUseIn_of_both
    (both : ∀ site, allowed site → permitted site → wanted site) :
    ∀ (stmts : List Stmt) {regions : List Region}, EveryUseIn allowed regions stmts →
    EveryUseIn permitted regions stmts → EveryUseIn wanted regions stmts
  | [], _, _, _ => trivial
  | first :: others, _, left, right =>
    ⟨first.everyUse_of_both both left.1 right.1, everyUseIn_of_both both others left.2 right.2⟩

end

end

end Lox
