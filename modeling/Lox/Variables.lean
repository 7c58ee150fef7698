import Lox.Text.Blank
import Lox.Text.Digit
import Lox.Text.Quoted

/-! Settings from the process environment.

The limit on nested calls is an integer in decimal digits of any script, with
blanks around it, a sign before it and single underscores between its digits. It
has at most 4300 digits. A limit of zero or less means none.
-/

set_option autoImplicit false

namespace Lox

/-- Read digits; an underscore stands only between two of them. -/
def readDigits (value : Nat) (afterDigit : Bool) : List Char → Option Nat
  | [] => if afterDigit then some value else none
  | '_' :: rest => if afterDigit then readDigits value false rest else none
  | c :: rest =>
    match Text.digitValue? c with
    | none => none
    | some digit => readDigits (10 * value + digit) true rest

def maxDigits : Nat := 4300

def readNatural? (text : List Char) : Option Nat :=
  if (text.filter fun c => (Text.digitValue? c).isSome).length ≤ maxDigits then
    readDigits 0 false text
  else none

def readInteger? (text : List Char) : Option Int :=
  match Text.trimBy Text.isBlank text with
  | '-' :: digits => (readNatural? digits).map fun value => -(value : Int)
  | '+' :: digits => (readNatural? digits).map Int.ofNat
  | digits => (readNatural? digits).map Int.ofNat

structure Variables where
  debug : Option String
  depth : Option String
  deriving DecidableEq, Repr

namespace Variables

def none : Variables := ⟨.none, .none⟩

def debugging (environment : Variables) : Bool :=
  environment.debug.any fun text => !text.isEmpty

def defaultLimit : Int := 200

/-- The limit on nested calls, and the note about a text that is no integer. -/
def limit (environment : Variables) : Option Int × Option String :=
  match environment.depth with
  | .none => (some defaultLimit, .none)
  | some text =>
    if text.isEmpty then (some defaultLimit, .none)
    else
      match readInteger? text.toList with
      | some value => (if 0 < value then some value else .none, .none)
      | .none =>
        (some defaultLimit, some ("ignoring LOX_MAX_CALL_DEPTH=" ++
          String.ofList (Text.quoted text.toList) ++ ": not an integer"))

def limitNotes (environment : Variables) : List String :=
  if environment.debugging then environment.limit.2.toList.map ("[DBG] " ++ ·) else []

end Variables

end Lox
