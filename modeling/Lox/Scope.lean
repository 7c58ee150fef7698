import Lox.Syntax.Tree
import Lox.Failure

/-! Binding names to scopes.

Blocks and function bodies open scopes; the top level is none. A use of a name
gets the distance to the nearest scope that declares it before the use, and none
if only the top level can bind it. A variable is declared before its initializer
is read but is not ready in it. Two things are errors: to read a variable that
is not ready, and to return outside all functions.
-/

set_option autoImplicit false

namespace Lox

inductive ScopeError.Cause where
  | ownInitializer
  | topLevelReturn
  deriving DecidableEq, Repr

def ScopeError.Cause.message : ScopeError.Cause → String
  | .ownInitializer => "Can't read local variable in its own initializer."
  | .topLevelReturn => "Can't return from top-level code."

structure ScopeError where
  token : Token
  cause : ScopeError.Cause
  deriving DecidableEq

def ScopeError.report (error : ScopeError) : Report :=
  .atToken error.token error.cause.message

/-- A use of a local name that was given its distance. -/
structure LocalUse where
  assigned : Bool
  name : Token
  distance : Nat
  deriving DecidableEq

def LocalUse.kindName (use : LocalUse) : String :=
  if use.assigned then "Assign" else "Variable"

/-- The names of a scope, the latest declaration first, and whether each is ready. -/
abbrev Scope := List (String × Bool)

namespace Scope

def ready? (scope : Scope) (name : String) : Option Bool := scope.lookup name

def declares (scope : Scope) (name : String) : Bool := (scope.ready? name).isSome

def mark (name : Token) (ready : Bool) : List Scope → List Scope
  | [] => []
  | inner :: outer => ((name.lexeme, ready) :: inner) :: outer

/-- The number of scopes between a use and the one that declares its name. -/
def distance? (scopes : List Scope) (name : Token) : Option Nat :=
  scopes.findIdx? (declares · name.lexeme)

/-- Whether the innermost scope declares a name that is not ready. -/
def unready (scopes : List Scope) (name : Token) : Bool :=
  scopes.head?.any fun scope => scope.ready? name.lexeme = some false

def ofParams (params : List Token) : Scope :=
  params.foldl (fun scope param => (param.lexeme, true) :: scope) []

end Scope

/-- What resolving a tree gives: the tree with distances, the uses in the order in
which they got them, and the errors. A raw node stops it. -/
inductive Resolution (α : Type) where
  | ok (value : α) (uses : List LocalUse) (errors : List ScopeError)
  | malformed (shape : Malformed) (errors : List ScopeError)

namespace Resolution

variable {α β : Type}

def pure (value : α) : Resolution α := .ok value [] []

def bind (resolution : Resolution α) (next : α → Resolution β) : Resolution β :=
  match resolution with
  | .malformed shape errors => .malformed shape errors
  | .ok value uses errors =>
    match next value with
    | .ok value moreUses moreErrors => .ok value (uses ++ moreUses) (errors ++ moreErrors)
    | .malformed shape moreErrors => .malformed shape (errors ++ moreErrors)

instance : Monad Resolution where
  pure := pure
  bind := bind

def noteIf (condition : Bool) (error : ScopeError) : Resolution Unit :=
  .ok () [] (if condition then [error] else [])

/-- The distance of a use, which is recorded if there is one. -/
def useOf (scopes : List Scope) (assigned : Bool) (name : Token) : Resolution (Option Nat) :=
  match Scope.distance? scopes name with
  | none => .ok none [] []
  | some distance => .ok (some distance) [⟨assigned, name, distance⟩] []

end Resolution

mutual

def Expr.resolve (scopes : List Scope) : Expr → Resolution Expr
  | .literal value => .pure (.literal value)
  | .grouping inner => do return .grouping (← inner.resolve scopes)
  | .unary operator operand => do return .unary operator (← operand.resolve scopes)
  | .binary left operator right => do
    return .binary (← left.resolve scopes) operator (← right.resolve scopes)
  | .logical left operator right => do
    return .logical (← left.resolve scopes) operator (← right.resolve scopes)
  | .reference name _ => do
    Resolution.noteIf (Scope.unready scopes name) ⟨name, .ownInitializer⟩
    return .reference name (← Resolution.useOf scopes false name)
  | .assign name value _ => do
    let value ← value.resolve scopes
    return .assign name value (← Resolution.useOf scopes true name)
  | .call callee paren arguments => do
    return .call (← callee.resolve scopes) paren (← resolveAll scopes arguments)
  | .misplaced node => .malformed (.expression node.kindName) []

def Expr.resolveAll (scopes : List Scope) : List Expr → Resolution (List Expr)
  | [] => .pure []
  | first :: others => do
    return (← first.resolve scopes) :: (← resolveAll scopes others)

end

def Expr.resolveOption (scopes : List Scope) : Option Expr → Resolution (Option Expr)
  | none => .pure none
  | some expr => do return some (← expr.resolve scopes)

mutual

/-- Resolve a statement, and give the scopes as they are behind it. -/
def Stmt.resolve (scopes : List Scope) (inFunction : Bool) : Stmt → Resolution (Stmt × List Scope)
  | .expression inner => do return (.expression (← inner.resolve scopes), scopes)
  | .print inner => do return (.print (← inner.resolve scopes), scopes)
  | .varDecl name initializer => do
    -- The name is there, but not ready, while its own initializer is resolved.
    let initializer ← Expr.resolveOption (Scope.mark name false scopes) initializer
    return (.varDecl name initializer, Scope.mark name true scopes)
  | .block body => do
    let (body, _) ← resolveAll ([] :: scopes) inFunction body
    return (.block body, scopes)
  | .conditional condition yes none => do
    let condition ← condition.resolve scopes
    -- A branch is no scope of its own: what it declared would stay, if the grammar let it.
    let (yes, scopes) ← yes.resolve scopes inFunction
    return (.conditional condition yes none, scopes)
  | .conditional condition yes (some no) => do
    let condition ← condition.resolve scopes
    let (yes, scopes) ← yes.resolve scopes inFunction
    let (no, scopes) ← no.resolve scopes inFunction
    return (.conditional condition yes (some no), scopes)
  | .loop condition body => do
    let condition ← condition.resolve scopes
    let (body, scopes) ← body.resolve scopes inFunction
    return (.loop condition body, scopes)
  | .funDecl name params body => do
    -- The function may call itself, so its name is ready before its body.
    let scopes := Scope.mark name true scopes
    let (body, _) ← resolveAll (Scope.ofParams params :: scopes) true body
    return (.funDecl name params body, scopes)
  | .ret keyword value => do
    Resolution.noteIf (!inFunction) ⟨keyword, .topLevelReturn⟩
    return (.ret keyword (← Expr.resolveOption scopes value), scopes)
  | .misplaced node => .malformed (.statement node.kindName) []

def Stmt.resolveAll (scopes : List Scope) (inFunction : Bool) :
    List Stmt → Resolution (List Stmt × List Scope)
  | [] => .pure ([], scopes)
  | first :: others => do
    let (first, scopes) ← first.resolve scopes inFunction
    let (others, scopes) ← resolveAll scopes inFunction others
    return (first :: others, scopes)

end

def resolveProgram (statements : List Stmt) : Resolution (List Stmt) := do
  return (← Stmt.resolveAll [] false statements).1

end Lox
