import Lox.Syntax.Tree
import Lox.Syntax.Error

/-! Reading a tree from a list of tokens.

A parser answers with a tree and the tokens it left, or stops at the tokens
where no rule fits; either way it hands over the errors it met, the last of
which is why it stopped. The closing token is no part of the list: an error at
its end has no token. `exhausted` is the answer of a parser that was given too
little fuel, and no other.
-/

set_option autoImplicit false

namespace Lox.Syntax

inductive Parsed (α : Type) where
  | ok (value : α) (rest : List Token) (errors : List SyntaxError)
  | stopped (rest : List Token) (earlier : List SyntaxError) (last : SyntaxError)
  | exhausted

namespace Parsed

variable {α β : Type}

def after (earlier : List SyntaxError) : Parsed α → Parsed α
  | .ok value rest errors => .ok value rest (earlier ++ errors)
  | .stopped rest errors last => .stopped rest (earlier ++ errors) last
  | .exhausted => .exhausted

def bind (parsed : Parsed α) (next : α → List Token → Parsed β) : Parsed β :=
  match parsed with
  | .ok value rest errors => (next value rest).after errors
  | .stopped rest errors last => .stopped rest errors last
  | .exhausted => .exhausted

end Parsed

def Parser (α : Type) : Type := List Token → Parsed α

namespace Parser

variable {α β : Type}

instance : Monad Parser where
  pure value := fun tokens => .ok value tokens []
  bind parser next := fun tokens => (parser tokens).bind fun value => next value

@[simp] theorem pure_apply (value : α) (tokens : List Token) :
    (pure value : Parser α) tokens = .ok value tokens [] := rfl

@[simp] theorem bind_apply (parser : Parser α) (next : α → Parser β) (tokens : List Token) :
    (parser >>= next) tokens = (parser tokens).bind fun value => next value := rfl

def exhausted : Parser α := fun _ => .exhausted

def stop (cause : SyntaxError.Cause) : Parser α :=
  fun tokens => .stopped tokens [] ⟨tokens.head?, cause⟩

def noteAt (token : Option Token) (cause : SyntaxError.Cause) : Parser Unit :=
  fun tokens => .ok () tokens [⟨token, cause⟩]

def note (cause : SyntaxError.Cause) : Parser Unit :=
  fun tokens => noteAt tokens.head? cause tokens

def nextIs (kind : Token.Kind) : Parser Bool :=
  fun tokens => .ok (tokens.head?.any (·.kind = kind)) tokens []

def accept? (kinds : List Token.Kind) : Parser (Option Token)
  | [] => .ok none [] []
  | token :: rest =>
    if token.kind ∈ kinds then .ok (some token) rest [] else .ok none (token :: rest) []

def expect (kind : Token.Kind) (cause : SyntaxError.Cause) : Parser Token := do
  match ← accept? [kind] with
  | some token => pure token
  | none => stop cause

/-- One or more items with commas between them; from the limit on, each further
item is noted as an error. -/
def separated (item : Parser α) (tooMany : SyntaxError.Cause) : Nat → Nat → Parser (List α)
  | 0, _ => exhausted
  | fuel + 1, room => do
    if room = 0 then note tooMany
    let first ← item
    match ← accept? [.comma] with
    | none => pure [first]
    | some _ => return first :: (← separated item tooMany fuel (room - 1))

end Parser

end Lox.Syntax
