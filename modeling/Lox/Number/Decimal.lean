import Lox.Number.Basic

/-! The number nearest to a ratio or to a decimal numeral.

A quotient is measured in units of its last place and rounded to the nearest
whole number of them, a half going to the even one. The unit is never smaller
than `2 ^ -1074`, which covers the subnormal numbers, and a result at or above
the magnitude of infinity is infinity.
-/

set_option autoImplicit false

namespace Lox.Number

/-- The quotient rounded to the nearest integer, a half going to the even one. -/
def roundDiv (numerator denominator : Nat) : Nat :=
  let quotient := numerator / denominator
  let twice := 2 * (numerator % denominator)
  if twice < denominator ∨ (twice = denominator ∧ quotient % 2 = 0) then quotient
  else quotient + 1

/-- The largest `e` with `2 ^ e` at most the quotient of two positive numbers. -/
def floorLog2 (numerator denominator : Nat) : Int :=
  let estimate : Int := (numerator.log2 : Int) - denominator.log2
  if denominator * Nat.pow 2 estimate.toNat ≤ numerator * Nat.pow 2 (-estimate).toNat then estimate
  else estimate - 1

/-- The exponent of the unit in the last place of the quotient. -/
def unitExponent (numerator denominator : Nat) : Int :=
  max (floorLog2 numerator denominator - 52) (-1074)

/-- Exponent and significand overlap in one bit, so a carry out of the rounding
moves to the next exponent by plain addition. -/
def magnitudeOfRatio (numerator denominator : Nat) : Nat :=
  if numerator = 0 then 0
  else
    let unit := unitExponent numerator denominator
    let units := roundDiv (numerator * Nat.pow 2 (-unit).toNat) (denominator * Nat.pow 2 unit.toNat)
    min infinityMagnitude ((unit + 1074).toNat * Nat.pow 2 52 + units)

def magnitudeOfDecimal (digits : Nat) (exponent : Int) : Nat :=
  magnitudeOfRatio (digits * Nat.pow 10 exponent.toNat) (Nat.pow 10 (-exponent).toNat)

def ofDecimal (digits : Nat) (exponent : Int) : Number :=
  ofMagnitude (magnitudeOfDecimal digits exponent)

def ofDigits (whole fraction : List Char) : Number :=
  ofDecimal (Nat.ofDigitChars 10 (whole ++ fraction) 0) (-fraction.length)

end Lox.Number
