import Lox.Proofs.Dynamic.Erasure

/-! Trees, values and failures on other lines.

The line of a token is only a label: it shows in reports and nowhere else. Here each line
is replaced by another one, everywhere at once.
-/

set_option autoImplicit false

namespace Lox

def Token.relabel (lines : Int → Int) (token : Token) : Token :=
  { token with line := lines token.line }

mutual

def Expr.relabel (lines : Int → Int) : Expr → Expr
  | .literal value => .literal value
  | .grouping inner => .grouping (inner.relabel lines)
  | .unary operator operand => .unary (operator.relabel lines) (operand.relabel lines)
  | .binary left operator right =>
    .binary (left.relabel lines) (operator.relabel lines) (right.relabel lines)
  | .logical left operator right =>
    .logical (left.relabel lines) (operator.relabel lines) (right.relabel lines)
  | .reference name distance => .reference (name.relabel lines) distance
  | .assign name value distance => .assign (name.relabel lines) (value.relabel lines) distance
  | .call callee paren arguments =>
    .call (callee.relabel lines) (paren.relabel lines) (relabelAll lines arguments)
  | .misplaced node => .misplaced node

def Expr.relabelAll (lines : Int → Int) : List Expr → List Expr
  | [] => []
  | first :: others => first.relabel lines :: relabelAll lines others

end

mutual

def Stmt.relabel (lines : Int → Int) : Stmt → Stmt
  | .expression inner => .expression (inner.relabel lines)
  | .print inner => .print (inner.relabel lines)
  | .varDecl name initializer =>
    .varDecl (name.relabel lines) (initializer.map (Expr.relabel lines))
  | .block body => .block (relabelAll lines body)
  | .conditional condition yes none => .conditional (condition.relabel lines) (yes.relabel lines) none
  | .conditional condition yes (some no) =>
    .conditional (condition.relabel lines) (yes.relabel lines) (some (no.relabel lines))
  | .loop condition body => .loop (condition.relabel lines) (body.relabel lines)
  | .funDecl name params body =>
    .funDecl (name.relabel lines) (params.map (Token.relabel lines)) (relabelAll lines body)
  | .ret keyword value => .ret (keyword.relabel lines) (value.map (Expr.relabel lines))
  | .misplaced node => .misplaced node

def Stmt.relabelAll (lines : Int → Int) : List Stmt → List Stmt
  | [] => []
  | first :: others => first.relabel lines :: relabelAll lines others

end

def ClosureIn.relabel {ε : Type} (lines : Int → Int) (function : ClosureIn ε) : ClosureIn ε where
  id := function.id
  name := function.name.relabel lines
  params := function.params.map (Token.relabel lines)
  body := Stmt.relabelAll lines function.body
  env := function.env

def ValueIn.relabel {ε : Type} (lines : Int → Int) : ValueIn ε → ValueIn ε
  | .literal value => .literal value
  | .closure function => .closure (function.relabel lines)
  | .native function => .native function

def Failure.relabel (lines : Int → Int) : Failure → Failure
  | .runtime error => .runtime { error with line := lines error.line }
  | .fault other => .fault other

/-- A runtime report on another line; other reports are not about running programs. -/
def Report.relabel (lines : Int → Int) : Report → Report
  | .runtime line message => .runtime (lines line) message
  | report => report

section
variable {lines later : Int → Int}

theorem Stmt.relabel_conditional (condition : Expr) (yes : Stmt) (no : Option Stmt) :
    (conditional condition yes no).relabel lines =
      .conditional (condition.relabel lines) (yes.relabel lines) (no.map (relabel lines)) := by
  cases no <;> rfl

@[simp] theorem Token.relabel_relabel (token : Token) :
    (token.relabel lines).relabel later = token.relabel (later ∘ lines) := rfl

@[simp] theorem Token.relabel_id (token : Token) : token.relabel id = token := rfl

mutual

@[simp] theorem Expr.relabel_relabel : ∀ expr : Expr,
    (expr.relabel lines).relabel later = expr.relabel (later ∘ lines)
  | .literal _ | .reference .. | .misplaced _ => rfl
  | .grouping inner => congrArg Expr.grouping inner.relabel_relabel
  | .unary _ operand => congrArg (Expr.unary _) operand.relabel_relabel
  | .binary left _ right =>
    congrArg₂ (Expr.binary · _ ·) left.relabel_relabel right.relabel_relabel
  | .logical left _ right =>
    congrArg₂ (Expr.logical · _ ·) left.relabel_relabel right.relabel_relabel
  | .assign _ value _ => congrArg (Expr.assign _ · _) value.relabel_relabel
  | .call callee _ arguments =>
    congrArg₂ (Expr.call · _ ·) callee.relabel_relabel (relabelAll_relabelAll arguments)

@[simp] theorem Expr.relabelAll_relabelAll : ∀ exprs : List Expr,
    relabelAll later (relabelAll lines exprs) = relabelAll (later ∘ lines) exprs
  | [] => rfl
  | first :: others =>
    congrArg₂ List.cons first.relabel_relabel (relabelAll_relabelAll others)

end

mutual

@[simp] theorem Expr.relabel_id : ∀ expr : Expr, expr.relabel id = expr
  | .literal _ | .reference .. | .misplaced _ => rfl
  | .grouping inner => congrArg Expr.grouping inner.relabel_id
  | .unary _ operand => congrArg (Expr.unary _) operand.relabel_id
  | .binary left _ right => congrArg₂ (Expr.binary · _ ·) left.relabel_id right.relabel_id
  | .logical left _ right => congrArg₂ (Expr.logical · _ ·) left.relabel_id right.relabel_id
  | .assign _ value _ => congrArg (Expr.assign _ · _) value.relabel_id
  | .call callee _ arguments =>
    congrArg₂ (Expr.call · _ ·) callee.relabel_id (relabelAll_id arguments)

@[simp] theorem Expr.relabelAll_id : ∀ exprs : List Expr, relabelAll id exprs = exprs
  | [] => rfl
  | first :: others => congrArg₂ List.cons first.relabel_id (relabelAll_id others)

end

mutual

@[simp] theorem Stmt.relabel_relabel : ∀ stmt : Stmt,
    (stmt.relabel lines).relabel later = stmt.relabel (later ∘ lines)
  | .expression inner => congrArg Stmt.expression inner.relabel_relabel
  | .print inner => congrArg Stmt.print inner.relabel_relabel
  | .varDecl _ none | .ret _ none | .misplaced _ => rfl
  | .varDecl _ (some initializer) =>
    congrArg (fun inner => Stmt.varDecl _ (some inner)) initializer.relabel_relabel
  | .block body => congrArg Stmt.block (relabelAll_relabelAll body)
  | .conditional condition yes none =>
    congrArg₂ (Stmt.conditional · · none) condition.relabel_relabel yes.relabel_relabel
  | .conditional condition yes (some no) => by
    simp only [relabel, condition.relabel_relabel, yes.relabel_relabel, no.relabel_relabel]
  | .loop condition body =>
    congrArg₂ Stmt.loop condition.relabel_relabel body.relabel_relabel
  | .funDecl _ params body => by
    simp only [relabel, List.map_map, relabelAll_relabelAll body]
    rfl
  | .ret _ (some value) =>
    congrArg (fun inner => Stmt.ret _ (some inner)) value.relabel_relabel

@[simp] theorem Stmt.relabelAll_relabelAll : ∀ stmts : List Stmt,
    relabelAll later (relabelAll lines stmts) = relabelAll (later ∘ lines) stmts
  | [] => rfl
  | first :: others =>
    congrArg₂ List.cons first.relabel_relabel (relabelAll_relabelAll others)

end

mutual

@[simp] theorem Stmt.relabel_id : ∀ stmt : Stmt, stmt.relabel id = stmt
  | .expression inner => congrArg Stmt.expression inner.relabel_id
  | .print inner => congrArg Stmt.print inner.relabel_id
  | .varDecl _ none | .ret _ none | .misplaced _ => rfl
  | .varDecl _ (some initializer) =>
    congrArg (fun inner => Stmt.varDecl _ (some inner)) initializer.relabel_id
  | .block body => congrArg Stmt.block (relabelAll_id body)
  | .conditional condition yes none =>
    congrArg₂ (Stmt.conditional · · none) condition.relabel_id yes.relabel_id
  | .conditional condition yes (some no) => by
    simp only [relabel, condition.relabel_id, yes.relabel_id, no.relabel_id]
  | .loop condition body => congrArg₂ Stmt.loop condition.relabel_id body.relabel_id
  | .funDecl _ params body =>
    congrArg₂ (Stmt.funDecl _) (List.map_id params) (relabelAll_id body)
  | .ret _ (some value) => congrArg (fun inner => Stmt.ret _ (some inner)) value.relabel_id

@[simp] theorem Stmt.relabelAll_id : ∀ stmts : List Stmt, relabelAll id stmts = stmts
  | [] => rfl
  | first :: others => congrArg₂ List.cons first.relabel_id (relabelAll_id others)

end

variable {ε : Type}

@[simp] theorem ValueIn.relabel_relabel (value : ValueIn ε) :
    (value.relabel lines).relabel later = value.relabel (later ∘ lines) := by
  cases value <;> simp [relabel, ClosureIn.relabel, Function.comp_def]

@[simp] theorem ValueIn.relabel_id (value : ValueIn ε) : value.relabel id = value := by
  cases value with
  | closure function => simp [relabel, ClosureIn.relabel, funext Token.relabel_id]
  | _ => rfl

end

end Lox
