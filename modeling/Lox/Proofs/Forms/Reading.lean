import Lox.Proofs.Forms.Spelling
import Lox.Proofs.Grammar.Built
import Lox.Proofs.Lines.Labels

/-! Trees from sketches.

A sketch is read as an expression or as a statement, as its place demands: a group
with the head of a declaration is a reference where an expression stands, and the
number of parts tells the forms with one head apart. Built trees are read back from
their sketches, with all tokens on line zero.
-/

set_option autoImplicit false

namespace Lox

open Token (Kind Lexeme)

namespace Sketch

def name : Sketch → Token
  | atom text => .ofSpelling text
  | group head _ => .ofSpelling head

def params : Sketch → List Token
  | atom _ => []
  | group [] _ => []
  | group (c :: first) others => .ofSpelling (c :: first) :: others.map name

def noExpr : Expr := .literal .nil

def exprHeads : List (List Char) := ["call".toList, "group".toList, "var".toList, ['=']]

mutual

def expr : Sketch → Expr
  | atom text => .literal (.ofForm text)
  | group head parts =>
    if head = "call".toList then
      match parts with
      | callee :: arguments => .call callee.expr (.ofSpelling [')']) (exprs arguments)
      | [] => noExpr
    else if head = "group".toList then
      match parts with
      | [inner] => .grouping inner.expr
      | _ => noExpr
    else if head = "var".toList then
      match parts with
      | [first] => .reference first.name none
      | _ => noExpr
    else if head = ['='] then
      match parts with
      | [first, value] => .assign first.name value.expr none
      | _ => noExpr
    else
      match parts with
      | [operand] => .unary (.ofSpelling head) operand.expr
      | [left, right] =>
        if (Token.ofSpelling head).kind ∈ [Kind.andWord, .orWord] then
          .logical left.expr (.ofSpelling head) right.expr
        else .binary left.expr (.ofSpelling head) right.expr
      | _ => noExpr

def exprs : List Sketch → List Expr
  | [] => []
  | first :: others => first.expr :: exprs others

end

def noStmt : Stmt := .block []

mutual

def stmt : Sketch → Stmt
  | atom _ => noStmt
  | group head parts =>
    if head = [';'] then
      match parts with
      | [inner] => .expression inner.expr
      | _ => noStmt
    else if head = "print".toList then
      match parts with
      | [inner] => .print inner.expr
      | _ => noStmt
    else if head = "var".toList then
      match parts with
      | [first] => .varDecl first.name none
      | [first, _, value] => .varDecl first.name (some value.expr)
      | _ => noStmt
    else if head = "block".toList then .block (stmts parts)
    else if head = "if".toList then
      match parts with
      | [condition, yes] => .conditional condition.expr yes.stmt none
      | [condition, yes, no] => .conditional condition.expr yes.stmt (some no.stmt)
      | _ => noStmt
    else if head = "while".toList then
      match parts with
      | [condition, body] => .loop condition.expr body.stmt
      | _ => noStmt
    else if head = "fun".toList then
      match parts with
      | first :: listed :: body => .funDecl first.name listed.params (stmts body)
      | _ => noStmt
    else
      match parts with
      | [] => .ret (.ofSpelling head) none
      | [value] => .ret (.ofSpelling head) (some value.expr)
      | _ => noStmt

def stmts : List Sketch → List Stmt
  | [] => []
  | first :: others => first.stmt :: stmts others

end

end Sketch

/-! Tokens in trees -/

namespace Token

variable {token : Token} {kinds : List Kind}

theorem ofSpelling_eq (isOf : token.IsOf Spelled kinds) (outside : ∀ kind ∈ kinds, kind ∉ [Kind.number, .string]) :
    ofSpelling token.lexeme.toList = token.relabel fun _ => 0 := by
  obtain ⟨same, none⟩ := Lexeme.ofSpelling isOf.1 (outside _ isOf.2)
  rw [same, String.ofList_toList, relabel, none]

theorem isPlain_lexeme (isOf : token.IsOf Spelled kinds)
    (outside : ∀ kind ∈ kinds, kind ∉ [Kind.number, .string, .leftParen, .rightParen]) :
    ∀ c ∈ token.lexeme.toList, Sketch.isPlain c = true :=
  Lexeme.isPlain isOf.1 (outside _ isOf.2)

theorem clear_nameAtom (isName : token.IsOf Spelled [.identifier]) : (Node.nameAtom token).Clear := by
  obtain ⟨first, others, text⟩ := List.exists_cons_of_ne_nil (Lexeme.ne_nil isName.1)
  have plain := isPlain_lexeme isName (by decide)
  rw [Node.nameAtom, Sketch.Clear, text]
  rw [text] at plain
  exact .word plain

theorem name_nameAtom (isName : token.IsOf Spelled [.identifier]) :
    (Node.nameAtom token).name = token.relabel fun _ => 0 :=
  ofSpelling_eq isName (by decide)

theorem paren_eq (isParen : token.IsOf Spelled [.rightParen]) : ofSpelling [')'] = token.relabel fun _ => 0 := by
  have text : token.lexeme.toList = [')'] := by
    apply Lexeme.of_rightParen
    rw [← List.mem_singleton.mp isParen.2]
    exact isParen.1
  rw [← text, ofSpelling_eq isParen (by decide)]

theorem keyword_eq (isReturn : token.IsOf Spelled [.returnWord]) :
    ofSpelling "return".toList = token.relabel fun _ => 0 := by
  have text : token.lexeme.toList = "return".toList := by
    apply Lexeme.of_returnWord
    rw [← List.mem_singleton.mp isReturn.2]
    exact isReturn.1
  rw [← text, ofSpelling_eq isReturn (by decide)]

theorem operator_free (isOf : token.IsOf Spelled kinds)
    (outside : ∀ kind ∈ kinds, kind ∉ [Kind.number, .string, .identifier, .varWord, .equal]) :
    ∀ head ∈ Sketch.exprHeads, token.lexeme.toList ≠ head := by
  have heads : ∀ head ∈ Sketch.exprHeads, (ofSpelling head).kind ∈ [Kind.identifier, .varWord, .equal] := by
    decide
  rintro head member rfl
  have kind := heads _ member
  rw [ofSpelling_eq isOf fun kind member => by have := outside kind member; grind] at kind
  have := outside _ isOf.2
  rw [relabel] at kind
  grind

end Token

/-! Trees -/

namespace Sketch

theorem expr_call (callee : Sketch) (arguments : List Sketch) :
    (group "call".toList (callee :: arguments)).expr =
      .call callee.expr (.ofSpelling [')']) (exprs arguments) := by
  rw [expr, if_pos rfl]

theorem stmt_block (body : List Sketch) : (group "block".toList body).stmt = .block (stmts body) := by
  unfold stmt
  rw [if_neg (by decide), if_neg (by decide), if_neg (by decide), if_pos rfl]

theorem stmt_fun (first listed : Sketch) (body : List Sketch) :
    (group "fun".toList (first :: listed :: body)).stmt =
      .funDecl first.name listed.params (stmts body) := by
  unfold stmt
  rw [if_neg (by decide), if_neg (by decide), if_neg (by decide), if_neg (by decide),
    if_neg (by decide), if_neg (by decide), if_pos rfl]

section
variable {head : List Char} (free : ∀ other ∈ exprHeads, head ≠ other)
include free

theorem expr_unary (operand : Sketch) :
    (group head [operand]).expr = .unary (.ofSpelling head) operand.expr := by
  simp only [exprHeads, List.forall_mem_cons] at free
  simp only [expr, free, if_false]

theorem expr_pair (left right : Sketch) : (group head [left, right]).expr =
    if (Token.ofSpelling head).kind ∈ [Kind.andWord, .orWord] then
      .logical left.expr (.ofSpelling head) right.expr
    else .binary left.expr (.ofSpelling head) right.expr := by
  simp only [exprHeads, List.forall_mem_cons] at free
  simp only [expr, free, if_false]

end

end Sketch

open Sketch (Clear AllClear)

mutual

theorem Expr.clear_sketch : ∀ expr : Expr, expr.Built Token.Spelled → expr.toNode.sketch.Clear
  | .literal value, built => by
    refine Literal.whole_form ?_
    rcases built with rfl | ⟨token, spelled, constant⟩
    · trivial
    · exact Literal.spelled_of_constant spelled constant
  | .grouping inner, built => ⟨List.all_eq_true.mp (by decide), inner.clear_sketch built, trivial⟩
  | .unary _ operand, ⟨isOperator, built⟩ =>
    ⟨Token.isPlain_lexeme isOperator (by decide), operand.clear_sketch built, trivial⟩
  | .binary left _ right, ⟨builtLeft, isOperator, builtRight⟩
  | .logical left _ right, ⟨builtLeft, isOperator, builtRight⟩ =>
    ⟨Token.isPlain_lexeme isOperator (by decide), left.clear_sketch builtLeft,
      right.clear_sketch builtRight, trivial⟩
  | .reference _ _, ⟨isName, _⟩ =>
    ⟨List.all_eq_true.mp (by decide), Token.clear_nameAtom isName, trivial⟩
  | .assign _ value _, ⟨isName, built, _⟩ =>
    ⟨List.all_eq_true.mp (by decide), Token.clear_nameAtom isName, value.clear_sketch built, trivial⟩
  | .call callee _ arguments, ⟨built, _, builtAll⟩ =>
    ⟨List.all_eq_true.mp (by decide), callee.clear_sketch built, clearAll_sketch arguments builtAll⟩

theorem Expr.clearAll_sketch : ∀ exprs : List Expr, AllBuilt Token.Spelled exprs →
    Sketch.AllClear (Node.sketchAll (toNodes exprs))
  | [], _ => trivial
  | first :: others, ⟨built, builtOthers⟩ =>
    ⟨first.clear_sketch built, clearAll_sketch others builtOthers⟩

end

mutual

theorem Expr.read_sketch : ∀ expr : Expr, expr.Built Token.Spelled →
    expr.toNode.sketch.expr = expr.relabel fun _ => 0
  | .literal value, built => by
    have spelled : value.Spelled := by
      rcases built with rfl | ⟨token, spelled, constant⟩
      · trivial
      · exact Literal.spelled_of_constant spelled constant
    exact congrArg Expr.literal (Literal.ofForm_form spelled)
  | .grouping inner, built => congrArg Expr.grouping (inner.read_sketch built)
  | .unary operator operand, ⟨isOperator, built⟩ => by
    rw [toNode, Node.sketch, Sketch.expr_unary (Token.operator_free isOperator (by decide)),
      Token.ofSpelling_eq isOperator (by decide), operand.read_sketch built, relabel]
  | .binary left operator right, ⟨builtLeft, isOperator, builtRight⟩ => by
    -- Both kinds of operations have two parts; the kind of the operator tells them apart.
    have disjoint : ∀ kind ∈ Operator.binaryKinds, kind ∉ [Kind.andWord, .orWord] := by decide
    have other : (operator.relabel fun _ => 0).kind ∉ [Kind.andWord, .orWord] := disjoint _ isOperator.2
    rw [toNode, Node.sketch, Sketch.expr_pair (Token.operator_free isOperator (by decide)),
      Token.ofSpelling_eq isOperator (by decide), if_neg other, left.read_sketch builtLeft,
      right.read_sketch builtRight, relabel]
  | .logical left operator right, ⟨builtLeft, isOperator, builtRight⟩ => by
    have same : (operator.relabel fun _ => 0).kind ∈ [Kind.andWord, .orWord] := isOperator.2
    rw [toNode, Node.sketch, Sketch.expr_pair (Token.operator_free isOperator (by decide)),
      Token.ofSpelling_eq isOperator (by decide), if_pos same, left.read_sketch builtLeft,
      right.read_sketch builtRight, relabel]
  | .reference _ _, ⟨isName, absent⟩ =>
    congrArg₂ Expr.reference (Token.name_nameAtom isName) absent.symm
  | .assign name value _, ⟨isName, built, rfl⟩ =>
    congrArg₂ (Expr.assign · · none) (Token.name_nameAtom isName) (value.read_sketch built)
  | .call callee paren arguments, ⟨built, isParen, builtAll⟩ => by
    rw [relabel, ← callee.read_sketch built, ← Token.paren_eq isParen,
      ← readAll_sketch arguments builtAll]
    exact Sketch.expr_call _ _

theorem Expr.readAll_sketch : ∀ exprs : List Expr, AllBuilt Token.Spelled exprs →
    Sketch.exprs (Node.sketchAll (toNodes exprs)) = relabelAll (fun _ => 0) exprs
  | [], _ => rfl
  | first :: others, ⟨built, builtOthers⟩ =>
    congrArg₂ List.cons (first.read_sketch built) (readAll_sketch others builtOthers)

end

section
variable {params : List Token}

theorem allClear_nameAtom (areNames : ∀ param ∈ params, param.IsOf Token.Spelled [.identifier]) :
    Sketch.AllClear (params.map Node.nameAtom) := by
  induction params with
  | nil => trivial
  | cons first others ih =>
    obtain ⟨isName, areNames⟩ := List.forall_mem_cons.mp areNames
    exact ⟨Token.clear_nameAtom isName, ih areNames⟩

theorem clear_paramGroup (areNames : ∀ param ∈ params, param.IsOf Token.Spelled [.identifier]) :
    (Node.paramGroup params).Clear := by
  cases params with
  | nil => exact ⟨List.forall_mem_nil _, trivial⟩
  | cons first others =>
    obtain ⟨isName, areNames⟩ := List.forall_mem_cons.mp areNames
    exact ⟨Token.isPlain_lexeme isName (by decide), allClear_nameAtom areNames⟩

theorem params_paramGroup (areNames : ∀ param ∈ params, param.IsOf Token.Spelled [.identifier]) :
    (Node.paramGroup params).params = params.map (Token.relabel fun _ => 0) := by
  cases params with
  | nil => rfl
  | cons first others =>
    obtain ⟨isName, areNames⟩ := List.forall_mem_cons.mp areNames
    obtain ⟨c, rest, text⟩ := List.exists_cons_of_ne_nil (Lexeme.ne_nil isName.1)
    have head := Token.ofSpelling_eq isName (by decide)
    rw [text] at head
    rw [Node.paramGroup, text, Sketch.params, head, List.map_map, List.map_cons]
    exact congrArg (_ :: ·) (List.map_congr_left fun param member => Token.name_nameAtom (areNames param member))

end

mutual

theorem Stmt.clear_sketch : ∀ stmt : Stmt, stmt.Built Token.Spelled → stmt.toNode.sketch.Clear
  | .expression inner, built | .print inner, built =>
    ⟨List.all_eq_true.mp (by decide), inner.clear_sketch built, trivial⟩
  | .varDecl _ none, isName =>
    ⟨List.all_eq_true.mp (by decide), Token.clear_nameAtom isName, trivial⟩
  | .varDecl _ (some value), ⟨isName, built⟩ =>
    ⟨List.all_eq_true.mp (by decide), Token.clear_nameAtom isName, .word (List.all_eq_true.mp (by decide)),
      value.clear_sketch built, trivial⟩
  | .block body, built => ⟨List.all_eq_true.mp (by decide), clearAll_sketch body built⟩
  | .conditional condition yes none, ⟨built, builtYes, _⟩ | .loop condition yes, ⟨built, builtYes, _⟩ =>
    ⟨List.all_eq_true.mp (by decide), condition.clear_sketch built, yes.clear_sketch builtYes, trivial⟩
  | .conditional condition yes (some no), ⟨built, ⟨builtYes, _⟩, builtNo, _⟩ =>
    ⟨List.all_eq_true.mp (by decide), condition.clear_sketch built, yes.clear_sketch builtYes,
      no.clear_sketch builtNo, trivial⟩
  | .funDecl _ params body, ⟨isName, areNames, built⟩ =>
    ⟨List.all_eq_true.mp (by decide), Token.clear_nameAtom isName, clear_paramGroup areNames,
      clearAll_sketch body built⟩
  | .ret _ none, _ => ⟨List.all_eq_true.mp (by decide), trivial⟩
  | .ret _ (some value), ⟨_, built⟩ =>
    ⟨List.all_eq_true.mp (by decide), value.clear_sketch built, trivial⟩

theorem Stmt.clearAll_sketch : ∀ stmts : List Stmt, AllBuilt Token.Spelled stmts →
    Sketch.AllClear (Node.sketchAll (toNodes stmts))
  | [], _ => trivial
  | first :: others, ⟨built, builtOthers⟩ =>
    ⟨first.clear_sketch built, clearAll_sketch others builtOthers⟩

end

mutual

theorem Stmt.read_sketch : ∀ stmt : Stmt, stmt.Built Token.Spelled →
    stmt.toNode.sketch.stmt = stmt.relabel fun _ => 0
  | .expression inner, built => congrArg Stmt.expression (inner.read_sketch built)
  | .print inner, built => congrArg Stmt.print (inner.read_sketch built)
  | .varDecl _ none, isName => congrArg (Stmt.varDecl · none) (Token.name_nameAtom isName)
  | .varDecl _ (some value), ⟨isName, built⟩ =>
    congrArg₂ (fun name value => Stmt.varDecl name (some value)) (Token.name_nameAtom isName)
      (value.read_sketch built)
  | .block body, built => (Sketch.stmt_block _).trans (congrArg Stmt.block (readAll_sketch body built))
  | .conditional condition yes none, ⟨built, builtYes, _⟩ =>
    congrArg₂ (Stmt.conditional · · none) (condition.read_sketch built) (yes.read_sketch builtYes)
  | .conditional condition yes (some no), ⟨built, ⟨builtYes, _⟩, builtNo, _⟩ => by
    rw [relabel, ← condition.read_sketch built, ← yes.read_sketch builtYes, ← no.read_sketch builtNo]
    rfl
  | .loop condition body, ⟨built, builtBody, _⟩ =>
    congrArg₂ Stmt.loop (condition.read_sketch built) (body.read_sketch builtBody)
  | .funDecl name params body, ⟨isName, areNames, built⟩ => by
    rw [relabel, ← Token.name_nameAtom isName, ← params_paramGroup areNames,
      ← readAll_sketch body built]
    exact Sketch.stmt_fun _ _ _
  | .ret _ none, isReturn => congrArg (Stmt.ret · none) (Token.keyword_eq isReturn)
  | .ret _ (some value), ⟨isReturn, built⟩ =>
    congrArg₂ (fun keyword value => Stmt.ret keyword (some value)) (Token.keyword_eq isReturn)
      (value.read_sketch built)

theorem Stmt.readAll_sketch : ∀ stmts : List Stmt, AllBuilt Token.Spelled stmts →
    Sketch.stmts (Node.sketchAll (toNodes stmts)) = relabelAll (fun _ => 0) stmts
  | [], _ => rfl
  | first :: others, ⟨built, builtOthers⟩ =>
    congrArg₂ List.cons (first.read_sketch built) (readAll_sketch others builtOthers)

end

end Lox
