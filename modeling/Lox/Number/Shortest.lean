import Lox.Number.Decimal

/-! The fewest decimal digits that read back as a given finite magnitude.

A grid consists of the multiples of one power of ten. The grids are tried from
the coarsest that can hold the leading digit to seventeen digits; on the first
with a neighbour of the value that reads back, the nearer such neighbour is
taken, a tie going to the even one. The exact expansion ends the search.
-/

set_option autoImplicit false

namespace Lox.Number

/-- The numeral `digits * 10 ^ exponent`. -/
structure Numeral where
  digits : Nat
  exponent : Int
  deriving DecidableEq, Repr

def Numeral.magnitude (numeral : Numeral) : Nat :=
  magnitudeOfDecimal numeral.digits numeral.exponent

/-- The largest `e` with `10 ^ e` at most the quotient of two positive numbers. -/
def floorLog10 (numerator denominator : Nat) : Int :=
  if denominator ≤ numerator then
    ((Nat.toDigits 10 (numerator / denominator)).length : Int) - 1
  else
    let places := (Nat.toDigits 10 (denominator / numerator)).length
    if denominator ≤ numerator * Nat.pow 10 (places - 1) then 1 - (places : Int) else -places

/-- The two neighbours of a quotient among the multiples of `10 ^ exponent`, the
nearer one first. -/
def neighbours (numerator denominator : Nat) (exponent : Int) : List Numeral :=
  let above := numerator * Nat.pow 10 (-exponent).toNat
  let below := denominator * Nat.pow 10 exponent.toNat
  let nearest := roundDiv above below
  let floor := above / below
  let other := if nearest = floor then floor + 1 else floor
  [⟨nearest, exponent⟩, ⟨other, exponent⟩]

/-- Every finite binary value has a finite decimal expansion. -/
def exactNumeral (value : Scaled) : Numeral :=
  ⟨value.significand * Nat.pow 2 value.exponent.toNat * Nat.pow 5 (-value.exponent).toNat,
    min value.exponent 0⟩

/-- The first numeral that reads back, over all grids from `10 ^ top` downwards. -/
def shortestFrom (magnitude : Nat) (top : Int) : Numeral :=
  let value := Scaled.ofMagnitude magnitude
  let found := (List.range 17).findSome? fun (places : Nat) =>
    (neighbours value.ratio.1 value.ratio.2 (top - places)).find? fun numeral =>
      numeral.magnitude = magnitude
  found.getD (exactNumeral value)

def shortest (magnitude : Nat) : Numeral :=
  let value := Scaled.ofMagnitude magnitude
  shortestFrom magnitude (floorLog10 value.ratio.1 value.ratio.2)

end Lox.Number
