import Lox.Proofs.Grammar.Basic
import Lox.Proofs.Scoping.Shape

/-! Trees that are built from tokens.

Something is known of each token in such a tree, each stands where its kind belongs, and
each constant is that of a token. A built tree has the shape of a program, and no
distances.
-/

set_option autoImplicit false

namespace Lox

open Token (Kind)

def Token.IsOf (known : Token → Prop) (kinds : List Kind) (token : Token) : Prop :=
  known token ∧ token.kind ∈ kinds

section
variable (known : Token → Prop)

mutual

/-- Each constant is that of a token, but for the condition of a loop that has none. -/
def Expr.Built : Expr → Prop
  | .literal value =>
    value = .bool true ∨ ∃ token, known token ∧ Grammar.constant? token = some value
  | .grouping inner => inner.Built
  | .unary operator operand => operator.IsOf known Operator.unaryKinds ∧ operand.Built
  | .binary left operator right =>
    left.Built ∧ operator.IsOf known Operator.binaryKinds ∧ right.Built
  | .logical left operator right => left.Built ∧ operator.IsOf known [.andWord, .orWord] ∧ right.Built
  | .reference name distance => name.IsOf known [.identifier] ∧ distance = none
  | .assign name value distance => name.IsOf known [.identifier] ∧ value.Built ∧ distance = none
  | .call callee paren arguments =>
    callee.Built ∧ paren.IsOf known [.rightParen] ∧ AllBuilt arguments
  | .misplaced _ => False

def Expr.AllBuilt : List Expr → Prop
  | [] => True
  | first :: others => first.Built ∧ AllBuilt others

end

mutual

def Stmt.Built : Stmt → Prop
  | .expression inner | .print inner => inner.Built known
  | .varDecl name none => name.IsOf known [.identifier]
  | .varDecl name (some initializer) => name.IsOf known [.identifier] ∧ initializer.Built known
  | .block body => AllBuilt body
  | .conditional condition yes none => condition.Built known ∧ yes.Built ∧ yes.declared = []
  | .conditional condition yes (some no) =>
    condition.Built known ∧ (yes.Built ∧ yes.declared = []) ∧ no.Built ∧ no.declared = []
  | .loop condition body => condition.Built known ∧ body.Built ∧ body.declared = []
  | .funDecl name params body =>
    name.IsOf known [.identifier] ∧ (∀ param ∈ params, param.IsOf known [.identifier]) ∧
      AllBuilt body
  | .ret keyword none => keyword.IsOf known [.returnWord]
  | .ret keyword (some value) => keyword.IsOf known [.returnWord] ∧ value.Built known
  | .misplaced _ => False

def Stmt.AllBuilt : List Stmt → Prop
  | [] => True
  | first :: others => first.Built ∧ AllBuilt others

end

def Stmt.BuiltBranch (stmt : Stmt) : Prop := stmt.Built known ∧ stmt.declared = []

end

variable {known : Token → Prop}

theorem Expr.allBuilt_of_forall {exprs : List Expr} (built : ∀ expr ∈ exprs, expr.Built known) :
    Expr.AllBuilt known exprs := by
  induction exprs with
  | nil => trivial
  | cons first others ih =>
    exact ⟨built first List.mem_cons_self, ih fun expr member => built expr (.tail _ member)⟩

theorem Stmt.built_of_mem {stmts : List Stmt} (built : Stmt.AllBuilt known stmts) :
    ∀ stmt ∈ stmts, stmt.Built known := by
  induction stmts with
  | nil => exact List.forall_mem_nil _
  | cons first others ih => exact List.forall_mem_cons.mpr ⟨built.1, ih built.2⟩

theorem Stmt.allBuilt_of_forall {stmts : List Stmt} (built : ∀ stmt ∈ stmts, stmt.Built known) :
    Stmt.AllBuilt known stmts := by
  induction stmts with
  | nil => trivial
  | cons first others ih =>
    exact ⟨built first List.mem_cons_self, ih fun stmt member => built stmt (.tail _ member)⟩

theorem Stmt.allBuilt_append {first second : List Stmt} (built : Stmt.AllBuilt known first)
    (also : Stmt.AllBuilt known second) : Stmt.AllBuilt known (first ++ second) := by
  induction first with
  | nil => exact also
  | cons stmt first ih => exact ⟨built.1, ih built.2⟩

mutual

theorem Expr.plain_of_built : ∀ expr : Expr, expr.Built known → expr.Proper ∧ expr.erase = expr
  | .literal _, _ => ⟨trivial, rfl⟩
  | .grouping inner, built =>
    have plain := inner.plain_of_built built
    ⟨plain.1, congrArg Expr.grouping plain.2⟩
  | .unary operator operand, ⟨isOperator, built⟩ =>
    have plain := operand.plain_of_built built
    ⟨⟨isOperator.2, plain.1⟩, congrArg (Expr.unary operator) plain.2⟩
  | .binary left operator right, ⟨builtLeft, isOperator, builtRight⟩ =>
    have plain := left.plain_of_built builtLeft
    have also := right.plain_of_built builtRight
    ⟨⟨plain.1, isOperator.2, also.1⟩, congrArg₂ (Expr.binary · operator ·) plain.2 also.2⟩
  | .logical left operator right, ⟨builtLeft, _, builtRight⟩ =>
    have plain := left.plain_of_built builtLeft
    have also := right.plain_of_built builtRight
    ⟨⟨plain.1, also.1⟩, congrArg₂ (Expr.logical · operator ·) plain.2 also.2⟩
  | .reference name _, ⟨_, absent⟩ => ⟨trivial, congrArg (Expr.reference name) absent.symm⟩
  | .assign name value _, ⟨_, built, absent⟩ =>
    have plain := value.plain_of_built built
    ⟨plain.1, congrArg₂ (Expr.assign name) plain.2 absent.symm⟩
  | .call callee paren arguments, ⟨built, _, builtAll⟩ =>
    have plain := callee.plain_of_built built
    have also := plainAll_of_built arguments builtAll
    ⟨⟨plain.1, also.1⟩, congrArg₂ (Expr.call · paren ·) plain.2 also.2⟩

theorem Expr.plainAll_of_built : ∀ exprs : List Expr, AllBuilt known exprs →
    AllProper exprs ∧ eraseAll exprs = exprs
  | [], _ => ⟨trivial, rfl⟩
  | first :: others, ⟨built, builtOthers⟩ =>
    have plain := first.plain_of_built built
    have also := plainAll_of_built others builtOthers
    ⟨⟨plain.1, also.1⟩, congrArg₂ List.cons plain.2 also.2⟩

end

mutual

theorem Stmt.plain_of_built : ∀ stmt : Stmt, stmt.Built known → stmt.Proper ∧ stmt.erase = stmt
  | .expression inner, built =>
    have plain := inner.plain_of_built built
    ⟨plain.1, congrArg Stmt.expression plain.2⟩
  | .print inner, built =>
    have plain := inner.plain_of_built built
    ⟨plain.1, congrArg Stmt.print plain.2⟩
  | .varDecl _ none, _ | .ret _ none, _ => ⟨trivial, rfl⟩
  | .varDecl name (some initializer), ⟨_, built⟩ =>
    have plain := initializer.plain_of_built built
    ⟨plain.1, congrArg (fun inner => Stmt.varDecl name (some inner)) plain.2⟩
  | .block body, built =>
    have plain := plainAll_of_built body built
    ⟨plain.1, congrArg Stmt.block plain.2⟩
  | .conditional condition yes none, ⟨built, builtYes, nothing⟩ =>
    have plain := condition.plain_of_built built
    have also := yes.plain_of_built builtYes
    ⟨⟨plain.1, also.1, nothing⟩, congrArg₂ (Stmt.conditional · · none) plain.2 also.2⟩
  | .conditional condition yes (some no), ⟨built, ⟨builtYes, nothing⟩, builtNo, nothingElse⟩ => by
    have plain := condition.plain_of_built built
    have also := yes.plain_of_built builtYes
    have other := no.plain_of_built builtNo
    refine ⟨⟨plain.1, ⟨also.1, nothing⟩, other.1, nothingElse⟩, ?_⟩
    rw [erase, plain.2, also.2, other.2]
  | .loop condition body, ⟨built, builtBody, nothing⟩ =>
    have plain := condition.plain_of_built built
    have also := body.plain_of_built builtBody
    ⟨⟨plain.1, also.1, nothing⟩, congrArg₂ Stmt.loop plain.2 also.2⟩
  | .funDecl name params body, ⟨_, _, built⟩ =>
    have plain := plainAll_of_built body built
    ⟨plain.1, congrArg (Stmt.funDecl name params) plain.2⟩
  | .ret keyword (some value), ⟨_, built⟩ =>
    have plain := value.plain_of_built built
    ⟨plain.1, congrArg (fun inner => Stmt.ret keyword (some inner)) plain.2⟩

theorem Stmt.plainAll_of_built : ∀ stmts : List Stmt, AllBuilt known stmts →
    AllProper stmts ∧ eraseAll stmts = stmts
  | [], _ => ⟨trivial, rfl⟩
  | first :: others, ⟨built, builtOthers⟩ =>
    have plain := first.plain_of_built built
    have also := plainAll_of_built others builtOthers
    ⟨⟨plain.1, also.1⟩, congrArg₂ List.cons plain.2 also.2⟩

end

end Lox
