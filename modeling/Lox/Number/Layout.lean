import Lox.Number.Shortest

/-! Texts of numbers.

A finite number is written with its shortest digits. With `e` the decimal
exponent of the first digit, the point stands inside the digits when
`-4 ≤ e < 16`; otherwise one digit stands before it and an exponent follows
with its sign and at least two digits. The layouts differ only in how they end
a whole number and in the names of the special values.
-/

set_option autoImplicit false

namespace Lox.Number

structure Layout where
  wholeEnd : String
  infinity : String
  nan : String
  deriving DecidableEq, Repr

def Layout.plain : Layout := ⟨".0", "inf", "nan"⟩

/-- The layout of printed values: whole numbers have no point. -/
def Layout.display : Layout := ⟨"", "Infinity", "NaN"⟩

/-- Digits without trailing zeros; the exponent is that of the first digit. -/
structure Significant where
  first : Char
  others : List Char
  exponent : Int
  deriving DecidableEq, Repr

def Significant.ofNumeral (numeral : Numeral) : Significant :=
  let written := Nat.toDigits 10 numeral.digits
  let exponent := numeral.exponent + (written.length : Int) - 1
  match (written.reverse.dropWhile (· = '0')).reverse with
  | [] => ⟨'0', [], 0⟩
  | first :: others => ⟨first, others, exponent⟩

def zeros (count : Nat) : List Char := List.replicate count '0'

/-- At least two digits. -/
def exponentDigits (exponent : Nat) : List Char :=
  let written := Nat.toDigits 10 exponent
  zeros (2 - written.length) ++ written

def Layout.positional (layout : Layout) (digits : Significant) : List Char :=
  if digits.exponent < 0 then
    ['0', '.'] ++ zeros (-digits.exponent - 1).toNat ++ digits.first :: digits.others
  else
    let places := digits.exponent.toNat
    let whole := digits.first :: digits.others.take places ++ zeros (places - digits.others.length)
    match digits.others.drop places with
    | [] => whole ++ layout.wholeEnd.toList
    | fraction => whole ++ '.' :: fraction

def scientific (digits : Significant) : List Char :=
  let fraction := if digits.others.isEmpty then [] else '.' :: digits.others
  let sign := if digits.exponent < 0 then '-' else '+'
  digits.first :: fraction ++ 'e' :: sign :: exponentDigits digits.exponent.natAbs

def Layout.finite (layout : Layout) (digits : Significant) : List Char :=
  if -4 ≤ digits.exponent ∧ digits.exponent < 16 then layout.positional digits
  else scientific digits

def Layout.unsigned (layout : Layout) (magnitude : Nat) : List Char :=
  if magnitude = infinityMagnitude then layout.infinity.toList
  else if magnitude = 0 then layout.finite ⟨'0', [], 0⟩
  else layout.finite (Significant.ofNumeral (shortest magnitude))

def Layout.write (layout : Layout) (x : Number) : List Char :=
  if x.isNaN then layout.nan.toList
  else if x.isNegative then '-' :: layout.unsigned x.magnitude
  else layout.unsigned x.magnitude

end Lox.Number
