import Lox.Syntax.Tree

/-! Changing the names of some scopes.

Each block and each function body may be marked. In a marked scope all variables and
parameters that it declares get other names, and so do the uses whose distance leads there.
Functions keep their names, as these show in what is printed.
-/

set_option autoImplicit false

namespace Lox

/-- A change of names that keeps the known names apart and makes none of them another. -/
structure Renaming where
  change : String → String
  Known : String → Prop
  apart : ∀ {name other : String}, Known name → Known other → change name = change other → name = other
  fresh : ∀ {name other : String}, Known name → Known other → change name = other → name = other

namespace Renaming

/-- An old name becomes a new one, which is used for nothing else. -/
def replace (old new : String) : Renaming where
  change name := if name = old then new else name
  Known name := name ≠ new
  apart known knownOther same := by
    split at same <;> split at same
    next first second => exact first.trans second.symm
    next => exact absurd same.symm knownOther
    next => exact absurd same known
    next => exact same
  fresh known knownOther same := by
    split at same
    · exact absurd same.symm knownOther
    · exact same

variable (names : Renaming)

def under (mark : Bool) (name : String) : String := if mark then names.change name else name

@[simp] theorem under_false (name : String) : names.under false name = name := rfl

variable {names}

/-- Names stay apart wherever they are changed. -/
theorem under_inj {mark second : Bool} {name other : String} (known : names.Known name)
    (knownOther : names.Known other)
    (same : names.under mark name = names.under second other) : name = other := by
  cases mark <;> cases second
  · exact same
  · exact (names.fresh knownOther known same.symm).symm
  · exact names.fresh known knownOther same
  · exact names.apart known knownOther same

end Renaming

/-- Whether the scope at a distance is marked; the marks begin with the innermost scope. -/
def markAt (marks : List Bool) : Option Nat → Bool
  | none => false
  | some distance => marks.getD distance false

abbrev markHere (marks : List Bool) : Bool := markAt marks (some 0)

def Token.rename (names : Renaming) (mark : Bool) (token : Token) : Token :=
  { token with lexeme := names.under mark token.lexeme }

mutual

def Expr.rename (names : Renaming) (marks : List Bool) : Expr → Expr
  | .literal value => .literal value
  | .grouping inner => .grouping (inner.rename names marks)
  | .unary operator operand => .unary operator (operand.rename names marks)
  | .binary left operator right =>
    .binary (left.rename names marks) operator (right.rename names marks)
  | .logical left operator right =>
    .logical (left.rename names marks) operator (right.rename names marks)
  | .reference name distance =>
    .reference (name.rename names (markAt marks distance)) distance
  | .assign name value distance =>
    .assign (name.rename names (markAt marks distance)) (value.rename names marks) distance
  | .call callee paren arguments =>
    .call (callee.rename names marks) paren (renameAll names marks arguments)
  | .misplaced node => .misplaced node

def Expr.renameAll (names : Renaming) (marks : List Bool) : List Expr → List Expr
  | [] => []
  | first :: others => first.rename names marks :: renameAll names marks others

end

mutual

/-- The same statement, where each scope in it may be marked. A function whose name a
marked scope declares keeps that name. -/
inductive Stmt.Renamed (names : Renaming) : List Bool → Stmt → Stmt → Prop where
  | expression {marks : List Bool} {inner : Expr} :
      Renamed names marks (.expression inner) (.expression (inner.rename names marks))
  | print {marks : List Bool} {inner : Expr} :
      Renamed names marks (.print inner) (.print (inner.rename names marks))
  | varDecl {marks : List Bool} {name : Token} {initializer : Option Expr} :
      Renamed names marks (.varDecl name initializer)
        (.varDecl (name.rename names (markHere marks))
          (initializer.map (Expr.rename names marks)))
  | block {marks : List Bool} {body other : List Stmt} (mark : Bool) :
      AllRenamed names (mark :: marks) body other →
      Renamed names marks (.block body) (.block other)
  | conditional {marks : List Bool} {condition : Expr} {yes other : Stmt} :
      Renamed names marks yes other →
      Renamed names marks (.conditional condition yes none)
        (.conditional (condition.rename names marks) other none)
  | alternative {marks : List Bool} {condition : Expr} {yes other no otherNo : Stmt} :
      Renamed names marks yes other → Renamed names marks no otherNo →
      Renamed names marks (.conditional condition yes (some no))
        (.conditional (condition.rename names marks) other (some otherNo))
  | loop {marks : List Bool} {condition : Expr} {body other : Stmt} :
      Renamed names marks body other →
      Renamed names marks (.loop condition body)
        (.loop (condition.rename names marks) other)
  | funDecl {marks : List Bool} {name : Token} {params : List Token} {body other : List Stmt}
      (mark : Bool) :
      names.under (markHere marks) name.lexeme = name.lexeme →
      AllRenamed names (mark :: marks) body other →
      Renamed names marks (.funDecl name params body)
        (.funDecl name (params.map (Token.rename names mark)) other)
  | ret {marks : List Bool} {keyword : Token} {value : Option Expr} :
      Renamed names marks (.ret keyword value)
        (.ret keyword (value.map (Expr.rename names marks)))
  | misplaced {marks : List Bool} {node : Node} :
      Renamed names marks (.misplaced node) (.misplaced node)

inductive Stmt.AllRenamed (names : Renaming) : List Bool → List Stmt → List Stmt → Prop where
  | nil {marks : List Bool} : AllRenamed names marks [] []
  | cons {marks : List Bool} {first other : Stmt} {stmts others : List Stmt} :
      Renamed names marks first other → AllRenamed names marks stmts others →
      AllRenamed names marks (first :: stmts) (other :: others)

end

section
variable (known : String → Prop)

mutual

def Expr.Named : Expr → Prop
  | .literal _ | .misplaced _ => True
  | .grouping inner => inner.Named
  | .unary _ operand => operand.Named
  | .binary left _ right => left.Named ∧ right.Named
  | .logical left _ right => left.Named ∧ right.Named
  | .reference name _ => known name.lexeme
  | .assign name value _ => value.Named ∧ known name.lexeme
  | .call callee _ arguments => callee.Named ∧ AllNamed arguments

def Expr.AllNamed : List Expr → Prop
  | [] => True
  | first :: others => first.Named ∧ AllNamed others

end

mutual

/-- All names in a statement are known, those that it declares and those that it uses. -/
def Stmt.Named : Stmt → Prop
  | .expression inner => inner.Named known
  | .print inner => inner.Named known
  | .varDecl name none => known name.lexeme
  | .varDecl name (some initializer) => known name.lexeme ∧ initializer.Named known
  | .block body => AllNamed body
  | .conditional condition yes none => condition.Named known ∧ yes.Named
  | .conditional condition yes (some no) => condition.Named known ∧ yes.Named ∧ no.Named
  | .loop condition body => condition.Named known ∧ body.Named
  | .funDecl name params body =>
    known name.lexeme ∧ (∀ param ∈ params, known param.lexeme) ∧ AllNamed body
  | .ret _ none | .misplaced _ => True
  | .ret _ (some value) => value.Named known

def Stmt.AllNamed : List Stmt → Prop
  | [] => True
  | first :: others => first.Named ∧ AllNamed others

end

section
variable [DecidablePred known]

mutual

def Expr.decideNamed : ∀ expr : Expr, Decidable (expr.Named known)
  | .literal _ | .misplaced _ => isTrue trivial
  | .grouping inner => inner.decideNamed
  | .unary _ operand => operand.decideNamed
  | .binary left _ right => @instDecidableAnd _ _ left.decideNamed right.decideNamed
  | .logical left _ right => @instDecidableAnd _ _ left.decideNamed right.decideNamed
  | .reference name _ => inferInstanceAs (Decidable (known name.lexeme))
  | .assign _ value _ => @instDecidableAnd _ _ value.decideNamed inferInstance
  | .call callee _ arguments =>
    @instDecidableAnd _ _ callee.decideNamed (decideAllNamed arguments)

def Expr.decideAllNamed : ∀ exprs : List Expr, Decidable (AllNamed known exprs)
  | [] => isTrue trivial
  | first :: others => @instDecidableAnd _ _ first.decideNamed (decideAllNamed others)

end

mutual

def Stmt.decideNamed : ∀ stmt : Stmt, Decidable (stmt.Named known)
  | .expression inner | .print inner => inner.decideNamed known
  | .varDecl name none => inferInstanceAs (Decidable (known name.lexeme))
  | .varDecl _ (some initializer) =>
    @instDecidableAnd _ _ inferInstance (initializer.decideNamed known)
  | .block body => decideAllNamed body
  | .conditional condition yes none =>
    @instDecidableAnd _ _ (condition.decideNamed known) yes.decideNamed
  | .conditional condition yes (some no) =>
    @instDecidableAnd _ _ (condition.decideNamed known)
      (@instDecidableAnd _ _ yes.decideNamed no.decideNamed)
  | .loop condition body => @instDecidableAnd _ _ (condition.decideNamed known) body.decideNamed
  | .funDecl _ _ body =>
    @instDecidableAnd _ _ inferInstance (@instDecidableAnd _ _ inferInstance (decideAllNamed body))
  | .ret _ none | .misplaced _ => isTrue trivial
  | .ret _ (some value) => value.decideNamed known

def Stmt.decideAllNamed : ∀ stmts : List Stmt, Decidable (AllNamed known stmts)
  | [] => isTrue trivial
  | first :: others => @instDecidableAnd _ _ first.decideNamed (decideAllNamed others)

end

instance (stmts : List Stmt) : Decidable (Stmt.AllNamed known stmts) :=
  Stmt.decideAllNamed known stmts

end

end

end Lox
