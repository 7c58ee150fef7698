import Lox.Machine

/-! Settings of a session, and what its host lends to it.

A limit on nested calls makes the host reserve frames: 25 for each call and 1000
besides. Their number has to fit a signed word of 32 bits, so a larger limit
cannot be granted.
-/

set_option autoImplicit false

namespace Lox

/-- Fuel for each run, the deepest nesting of calls that the host itself bears,
and the clock. -/
structure Host where
  fuel : Nat
  ceiling : Option Int
  clock : Nat → Number

structure Settings where
  resolve : Bool
  limit : Option Int
  record : Bool
  debug : Bool

def reservedFrames (limit : Int) : Int := 25 * limit + 1000

def maxFrames : Int := 2147483647

/-- The smaller of two limits, either of which may be absent. -/
def tighterLimit : Option Int → Option Int → Option Int
  | none, limit => limit
  | limit, none => limit
  | some first, some second => some (min first second)

namespace Settings

def granted (settings : Settings) : Bool :=
  settings.limit.all fun limit => reservedFrames limit ≤ maxFrames

def rules (settings : Settings) (host : Host) : Rules where
  limit := tighterLimit settings.limit host.ceiling
  lookup := if settings.resolve then .lexical else .dynamic
  clock := host.clock

def rules? (settings : Settings) (host : Host) : Option Rules :=
  if settings.granted then some (settings.rules host) else none

end Settings

end Lox
