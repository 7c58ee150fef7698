import Lox.Syntax.StmtParser

/-! Reading with a cursor.

The tokens stay where they are, the closing one among them, and a cursor moves over them.
A reading can look at the token under the cursor and at the one before it; to look anywhere
outside the tokens is an outcome of its own. The cursor keeps where it has been and from
where to where it went in each declaration.
-/

set_option autoImplicit false

namespace Lox.Syntax

open Token (Kind)

structure Span where
  start : Nat
  stop : Nat
  deriving DecidableEq, Repr

/-- A position with the errors so far, the positions before it and the spans of the
declarations, the latest first. -/
structure Cursor where
  position : Nat
  errors : List (Token × SyntaxError.Cause)
  trail : List Nat
  spans : List Span

namespace Cursor

/-- How a reading ends: with a value, with an error that was raised, outside the tokens, or
for lack of fuel. -/
inductive Step (α : Type) where
  | done (value : α) (cursor : Cursor)
  | raised (cursor : Cursor)
  | outside
  | exhausted

def Step.bind {α β : Type} (step : Step α) (next : α → Cursor → Step β) : Step β :=
  match step with
  | .done value cursor => next value cursor
  | .raised cursor => .raised cursor
  | .outside => .outside
  | .exhausted => .exhausted

def Reading (α : Type) : Type := List Token → Cursor → Step α

variable {α β : Type}

instance : Monad Reading where
  pure value := fun _ cursor => .done value cursor
  bind reading next := fun tokens cursor =>
    (reading tokens cursor).bind fun value cursor => next value tokens cursor

@[simp] theorem pure_apply (value : α) (tokens : List Token) (cursor : Cursor) :
    (pure value : Reading α) tokens cursor = .done value cursor := rfl

@[simp] theorem bind_apply (reading : Reading α) (next : α → Reading β) (tokens : List Token)
    (cursor : Cursor) : (reading >>= next) tokens cursor =
      (reading tokens cursor).bind fun value cursor => next value tokens cursor := rfl

@[simp] theorem map_apply (change : α → β) (reading : Reading α) (tokens : List Token)
    (cursor : Cursor) : (change <$> reading) tokens cursor =
      (reading tokens cursor).bind fun value cursor => .done (change value) cursor := rfl

@[simp] theorem Step.done_bind (value : α) (cursor : Cursor) (next : α → Cursor → Step β) :
    (Step.done value cursor).bind next = next value cursor := rfl

instance : LawfulMonad Reading :=
  .mk' Reading
    (fun reading => funext fun tokens => funext fun cursor => by
      change (reading tokens cursor).bind Step.done = _
      cases reading tokens cursor <;> rfl)
    (fun _ _ => rfl)
    (fun reading next more => funext fun tokens => funext fun cursor => by
      simp only [bind_apply]
      cases reading tokens cursor <;> rfl)

def next (cursor : Cursor) : Cursor :=
  { cursor with position := cursor.position + 1, trail := cursor.position :: cursor.trail }

def noted (cursor : Cursor) (token : Token) (cause : SyntaxError.Cause) : Cursor :=
  { cursor with errors := cursor.errors ++ [(token, cause)] }

namespace Reading

def exhausted : Reading α := fun _ _ => .exhausted

def peek : Reading Token := fun tokens cursor =>
  match tokens[cursor.position]? with
  | some token => .done token cursor
  | none => .outside

def previous : Reading Token := fun tokens cursor =>
  match cursor.position with
  | 0 => .outside
  | position + 1 =>
    match tokens[position]? with
    | some token => .done token cursor
    | none => .outside

def atEnd : Reading Bool := do
  return (← peek).kind = .endOfInput

def check (kind : Kind) : Reading Bool := do
  if ← atEnd then return false
  return (← peek).kind = kind

def move : Reading Unit := fun _ cursor => .done () cursor.next

def advance : Reading Token := do
  unless ← atEnd do move
  previous

def accept : List Kind → Reading Bool
  | [] => pure false
  | kind :: kinds => do
    if ← check kind then
      let _ ← advance
      return true
    accept kinds

def note (token : Token) (cause : SyntaxError.Cause) : Reading Unit :=
  fun _ cursor => .done () (cursor.noted token cause)

def raise : Reading α := fun _ cursor => .raised cursor

def fail (cause : SyntaxError.Cause) : Reading α := do
  note (← peek) cause
  raise

def consume (kind : Kind) (cause : SyntaxError.Cause) : Reading Token := do
  if ← check kind then advance
  else fail cause

def skip : Nat → Reading Unit
  | 0 => exhausted
  | fuel + 1 => do
    if ← atEnd then return
    if (← previous).kind = .semicolon then return
    if (← peek).kind ∈ StmtParser.starters then return
    let _ ← advance
    skip fuel

def synchronize : Reading Unit := fun tokens =>
  (do
    let _ ← advance
    skip tokens.length : Reading Unit) tokens

def attempt (reading : Reading α) (recover : Reading Unit) : Reading (Option α) :=
  fun tokens cursor =>
    match reading tokens cursor with
    | .done value after => .done (some value) after
    | .raised after => (recover tokens after).bind fun _ after => .done none after
    | .outside => .outside
    | .exhausted => .exhausted

def spanned (reading : Reading α) : Reading α := fun tokens cursor =>
  (reading tokens cursor).bind fun value after =>
    .done value { after with spans := ⟨cursor.position, after.position⟩ :: after.spans }

def items (item : Reading α) (tooMany : SyntaxError.Cause) : Nat → Nat → Reading (List α)
  | 0, _ => exhausted
  | fuel + 1, count => do
    if ExprParser.maxArguments ≤ count then
      note (← peek) tooMany
    let first ← item
    if ← accept [.comma] then
      return first :: (← items item tooMany fuel (count + 1))
    else return [first]

end Reading

end Cursor

end Lox.Syntax
