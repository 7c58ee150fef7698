/-! Numbers are binary64 values with a single NaN.

Equality of numbers is equality of their bits, so NaN equals NaN and the two
zeros differ. A magnitude is the pattern without its sign bit; as a natural
number it orders the non-negative values, with infinity above all finite ones.
-/

set_option autoImplicit false

namespace Lox

abbrev Number := Float

namespace Number

/-- The magnitude of infinity; finite magnitudes lie below it and NaN's above. -/
def infinityMagnitude : Nat := 2047 * Nat.pow 2 52

def magnitude (x : Number) : Nat :=
  x.toBits.toNat % Nat.pow 2 63

def isNegative (x : Number) : Bool :=
  Nat.pow 2 63 ≤ x.toBits.toNat

def isNaN (x : Number) : Bool :=
  infinityMagnitude < x.magnitude

def ofMagnitude (magnitude : Nat) : Number :=
  Float.ofBits magnitude.toUInt64

/-- Flip the sign bit; NaN has none. -/
def negate (x : Number) : Number :=
  Float.ofBits (x.toBits ^^^ 0x8000000000000000)

/-- A finite magnitude as `significand * 2 ^ exponent`. -/
structure Scaled where
  significand : Nat
  exponent : Int
  deriving DecidableEq, Repr

def Scaled.ofMagnitude (magnitude : Nat) : Scaled :=
  let field : Nat := magnitude / Nat.pow 2 52
  let fraction : Nat := magnitude % Nat.pow 2 52
  if field = 0 then ⟨fraction, -1074⟩ else ⟨Nat.pow 2 52 + fraction, (field : Int) - 1075⟩

def Scaled.ratio (value : Scaled) : Nat × Nat :=
  (value.significand * Nat.pow 2 value.exponent.toNat, Nat.pow 2 (-value.exponent).toNat)

end Number

end Lox
