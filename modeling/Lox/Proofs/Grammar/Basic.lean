import Lox.Syntax.Tree

/-! The grammar of programs.

A relation says which lists of tokens are phrases of which precedence, and which
tree each stands for. The operators of one precedence group to the left and an
assignment to the right. A statement is dangling if it ends in an `if` that still
lacks its `else`; no such statement may stand before an `else`, which therefore
belongs to the nearest `if`.
-/

set_option autoImplicit false

namespace Lox.Grammar

open Token (Kind)

def listLimit : Nat := 255

/-- The precedences, the tightest first. -/
inductive Level where
  | primary | call | unary | factor | term | comparison | equality | conjunction
  | disjunction | assignment
  deriving DecidableEq, Repr

namespace Level

def inner? : Level → Option Level
  | .primary => none
  | .call => some .primary
  | .unary => some .call
  | .factor => some .unary
  | .term => some .factor
  | .comparison => some .term
  | .equality => some .comparison
  | .conjunction => some .equality
  | .disjunction => some .conjunction
  | .assignment => some .disjunction

def operators : Level → List Kind
  | .factor => [.slash, .star]
  | .term => [.minus, .plus]
  | .comparison => [.greater, .greaterEqual, .less, .lessEqual]
  | .equality => [.bangEqual, .equalEqual]
  | .conjunction => [.andWord]
  | .disjunction => [.orWord]
  | .primary | .call | .unary | .assignment => []

def combine : Level → Expr → Token → Expr → Expr
  | .conjunction | .disjunction => .logical
  | _ => .binary

end Level

def constant? (token : Token) : Option Literal :=
  match token.kind with
  | .falseWord => some (.bool false)
  | .trueWord => some (.bool true)
  | .nilWord => some .nil
  | .number | .string => some (token.literal.getD .nil)
  | _ => none

section
variable {α : Type}

/-- One or more items with commas between them. -/
inductive Separated (derives : List Token → α → Prop) : List Token → List α → Prop where
  | last {tokens : List Token} {item : α} :
      derives tokens item → Separated derives tokens [item]
  | more {comma : Token} {tokens others : List Token} {item : α} {items : List α} :
      derives tokens item → comma.kind = .comma → Separated derives others items →
      Separated derives (tokens ++ comma :: others) (item :: items)

/-- A list of items that may be empty and has a limited length. -/
inductive Listed (derives : List Token → α → Prop) : List Token → List α → Prop where
  | none : Listed derives [] []
  | some {tokens : List Token} {items : List α} :
      Separated derives tokens items → items.length ≤ listLimit → Listed derives tokens items

end

inductive Phrase : Level → List Token → Expr → Prop where
  | constant {token : Token} {value : Literal} :
      constant? token = some value → Phrase .primary [token] (.literal value)
  | name {token : Token} :
      token.kind = .identifier → Phrase .primary [token] (.reference token none)
  | group {opening closing : Token} {tokens : List Token} {inner : Expr} :
      opening.kind = .leftParen → Phrase .assignment tokens inner → closing.kind = .rightParen →
      Phrase .primary (opening :: tokens ++ [closing]) (.grouping inner)
  | call {opening closing : Token} {tokens inside : List Token} {callee : Expr}
      {arguments : List Expr} :
      Phrase .call tokens callee → opening.kind = .leftParen →
      Listed (Phrase .assignment) inside arguments → closing.kind = .rightParen →
      Phrase .call (tokens ++ opening :: inside ++ [closing]) (.call callee closing arguments)
  | unary {operator : Token} {tokens : List Token} {operand : Expr} :
      operator.kind = .bang ∨ operator.kind = .minus → Phrase .unary tokens operand →
      Phrase .unary (operator :: tokens) (.unary operator operand)
  | binary {level inner : Level} {operator : Token} {before behind : List Token}
      {left right : Expr} :
      level.inner? = some inner → operator.kind ∈ level.operators →
      Phrase level before left → Phrase inner behind right →
      Phrase level (before ++ operator :: behind) (level.combine left operator right)
  | assign {name equals : Token} {tokens : List Token} {value : Expr} :
      name.kind = .identifier → equals.kind = .equal → Phrase .assignment tokens value →
      Phrase .assignment (name :: equals :: tokens) (.assign name value none)
  | tighter {level inner : Level} {tokens : List Token} {expr : Expr} :
      level.inner? = some inner → Phrase inner tokens expr → Phrase level tokens expr

inductive Name : List Token → Token → Prop where
  | intro {token : Token} : token.kind = .identifier → Name [token] token

inductive Clause : List Token → Option Expr → Prop where
  | absent : Clause [] none
  | present {tokens : List Token} {expr : Expr} :
      Phrase .assignment tokens expr → Clause tokens (some expr)

inductive Closed : List Token → Expr → Prop where
  | intro {semicolon : Token} {tokens : List Token} {expr : Expr} :
      Phrase .assignment tokens expr → semicolon.kind = .semicolon →
      Closed (tokens ++ [semicolon]) expr

inductive Variable : List Token → Stmt → Prop where
  | bare {word name semicolon : Token} :
      word.kind = .varWord → name.kind = .identifier → semicolon.kind = .semicolon →
      Variable [word, name, semicolon] (.varDecl name none)
  | initialized {word name equals : Token} {tokens : List Token} {value : Expr} :
      word.kind = .varWord → name.kind = .identifier → equals.kind = .equal →
      Closed tokens value →
      Variable (word :: name :: equals :: tokens) (.varDecl name (some value))

/-- The first clause of a `for` loop with its semicolon. -/
inductive Initializer : List Token → Option Stmt → Prop where
  | absent {semicolon : Token} : semicolon.kind = .semicolon → Initializer [semicolon] none
  | variable {tokens : List Token} {stmt : Stmt} :
      Variable tokens stmt → Initializer tokens (some stmt)
  | expression {tokens : List Token} {expr : Expr} :
      Closed tokens expr → Initializer tokens (some (.expression expr))

def withIncrement (body : Stmt) : Option Expr → Stmt
  | none => body
  | some increment => .block [body, .expression increment]

def withInitializer (loop : Stmt) : Option Stmt → Stmt
  | none => loop
  | some initializer => .block [initializer, loop]

mutual

inductive Statement : Bool → List Token → Stmt → Prop where
  | expression {tokens : List Token} {expr : Expr} :
      Closed tokens expr → Statement false tokens (.expression expr)
  | print {word : Token} {tokens : List Token} {expr : Expr} :
      word.kind = .printWord → Closed tokens expr → Statement false (word :: tokens) (.print expr)
  | ret {word semicolon : Token} {tokens : List Token} {value : Option Expr} :
      word.kind = .returnWord → Clause tokens value → semicolon.kind = .semicolon →
      Statement false (word :: tokens ++ [semicolon]) (.ret word value)
  | block {opening closing : Token} {tokens : List Token} {body : List Stmt} :
      opening.kind = .leftBrace → Declarations tokens body → closing.kind = .rightBrace →
      Statement false (opening :: tokens ++ [closing]) (.block body)
  | loop {word opening closing : Token} {test tokens : List Token} {condition : Expr}
      {dangling : Bool} {body : Stmt} :
      word.kind = .whileWord → opening.kind = .leftParen → Phrase .assignment test condition →
      closing.kind = .rightParen → Statement dangling tokens body →
      Statement dangling (word :: opening :: test ++ closing :: tokens) (.loop condition body)
  | forLoop {word opening semicolon closing : Token} {first test step tokens : List Token}
      {initializer : Option Stmt} {condition increment : Option Expr} {dangling : Bool}
      {body : Stmt} :
      word.kind = .forWord → opening.kind = .leftParen → Initializer first initializer →
      Clause test condition → semicolon.kind = .semicolon → Clause step increment →
      closing.kind = .rightParen → Statement dangling tokens body →
      Statement dangling
        (word :: opening :: first ++ test ++ semicolon :: step ++ closing :: tokens)
        (withInitializer
          (.loop (condition.getD (.literal (.bool true))) (withIncrement body increment))
          initializer)
  | ifOnly {word opening closing : Token} {test tokens : List Token} {condition : Expr}
      {dangling : Bool} {yes : Stmt} :
      word.kind = .ifWord → opening.kind = .leftParen → Phrase .assignment test condition →
      closing.kind = .rightParen → Statement dangling tokens yes →
      Statement true (word :: opening :: test ++ closing :: tokens)
        (.conditional condition yes none)
  | ifElse {word opening closing otherwise : Token} {test tokens others : List Token}
      {condition : Expr} {dangling : Bool} {yes no : Stmt} :
      word.kind = .ifWord → opening.kind = .leftParen → Phrase .assignment test condition →
      closing.kind = .rightParen → Statement false tokens yes → otherwise.kind = .elseWord →
      Statement dangling others no →
      Statement dangling (word :: opening :: test ++ closing :: tokens ++ otherwise :: others)
        (.conditional condition yes (some no))

inductive Declaration : List Token → Stmt → Prop where
  | function {word name opening closing start finish : Token} {inside tokens params : List Token}
      {body : List Stmt} :
      word.kind = .funWord → name.kind = .identifier → opening.kind = .leftParen →
      Listed Name inside params → closing.kind = .rightParen → start.kind = .leftBrace →
      Declarations tokens body → finish.kind = .rightBrace →
      Declaration
        (word :: name :: opening :: inside ++ closing :: start :: tokens ++ [finish])
        (.funDecl name params body)
  | variable {tokens : List Token} {stmt : Stmt} : Variable tokens stmt → Declaration tokens stmt
  | statement {dangling : Bool} {tokens : List Token} {stmt : Stmt} :
      Statement dangling tokens stmt → Declaration tokens stmt

/-- Declarations one behind the other, as at the top and in blocks. -/
inductive Declarations : List Token → List Stmt → Prop where
  | none : Declarations [] []
  | more {tokens others : List Token} {stmt : Stmt} {stmts : List Stmt} :
      Declaration tokens stmt → Declarations others stmts →
      Declarations (tokens ++ others) (stmt :: stmts)

end

end Lox.Grammar
