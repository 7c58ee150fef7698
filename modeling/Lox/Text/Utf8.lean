/-! Reading UTF-8.

A lead byte owes up to three continuation bytes, and it narrows the range of
the first of them so that no code is written too long, lies in the surrogate
range, or exceeds `U+10FFFF`. Reading stops at the first byte that breaks this.
-/

set_option autoImplicit false

namespace Lox.Text.Utf8

inductive Fault where
  | invalidStart
  | invalidContinuation
  | truncated
  deriving DecidableEq, Repr

def Fault.message : Fault → String
  | .invalidStart => "invalid start byte"
  | .invalidContinuation => "invalid continuation byte"
  | .truncated => "unexpected end of data"

/-- A character read in part: the bytes it still owes, the range of the next of
them, and the code so far. -/
structure Pending where
  owed : Nat
  low : Nat
  high : Nat
  code : Nat
  deriving DecidableEq, Repr

def Pending.none : Pending := ⟨0, 0, 0, 0⟩

def Pending.ofLead (byte : Nat) : Except Fault Pending :=
  if byte < 0x80 then .ok ⟨0, 0x80, 0xBF, byte⟩
  else if byte < 0xC2 then .error .invalidStart
  else if byte < 0xE0 then .ok ⟨1, 0x80, 0xBF, byte - 0xC0⟩
  else if byte = 0xE0 then .ok ⟨2, 0xA0, 0xBF, 0⟩
  else if byte = 0xED then .ok ⟨2, 0x80, 0x9F, 0xD⟩
  else if byte < 0xF0 then .ok ⟨2, 0x80, 0xBF, byte - 0xE0⟩
  else if byte = 0xF0 then .ok ⟨3, 0x90, 0xBF, 0⟩
  else if byte < 0xF4 then .ok ⟨3, 0x80, 0xBF, byte - 0xF0⟩
  else if byte = 0xF4 then .ok ⟨3, 0x80, 0x8F, 4⟩
  else .error .invalidStart

def Pending.next (pending : Pending) (byte : Nat) : Except Fault Pending :=
  if pending.owed = 0 then Pending.ofLead byte
  else if pending.low ≤ byte ∧ byte ≤ pending.high then
    .ok ⟨pending.owed - 1, 0x80, 0xBF, pending.code * 64 + (byte - 0x80)⟩
  else .error .invalidContinuation

def decodeFrom (pending : Pending) : List UInt8 → Except Fault (List Char)
  | [] => if pending.owed = 0 then .ok [] else .error .truncated
  | byte :: rest =>
    match pending.next byte.toNat with
    | .error fault => .error fault
    | .ok next =>
      if next.owed = 0 then (decodeFrom next rest).map (Char.ofNat next.code :: ·)
      else decodeFrom next rest

def decode (bytes : List UInt8) : Except Fault (List Char) :=
  decodeFrom .none bytes

end Lox.Text.Utf8
