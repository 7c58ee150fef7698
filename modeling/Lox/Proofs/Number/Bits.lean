import Lox.Number.Layout
import Mathlib

/-! Magnitudes in the bits of numbers.

A magnitude up to that of infinity is the pattern of a number: making the number
and taking its bits gives the magnitude back, with no sign.
-/

set_option autoImplicit false

namespace Lox.Number

open Float.Model (Format)
open Float.Model.UnpackedFloat (isNaNBits unpackExponent unpackMantissa pack_unpack)

section
variable {magnitude : Nat}

theorem toUInt64_toNat (bounded : magnitude ≤ infinityMagnitude) :
    magnitude.toUInt64.toNat = magnitude := by
  rw [Nat.toUInt64_eq]
  apply UInt64.toNat_ofNat_of_lt'
  exact Nat.lt_of_le_of_lt bounded (by decide)

theorem isNaNBits_of_le (bounded : magnitude ≤ infinityMagnitude) :
    @isNaNBits Format.binary64 magnitude.toUInt64.toBitVec = false := by
  have bits : magnitude.toUInt64.toBitVec.toNat = magnitude := toUInt64_toNat bounded
  simp only [isNaNBits, decide_eq_false_iff_not, not_and, not_not]
  intro ones
  -- The field is all ones only at infinity, whose fraction is zero.
  have field : magnitude / 2 ^ 52 % 2 ^ 11 = 2047 := by
    have values := congrArg BitVec.toNat ones
    simpa [unpackExponent, bits, Nat.shiftRight_eq_div_pow] using values
  have fraction : magnitude % 2 ^ 52 = 0 := by
    simp only [infinityMagnitude, Nat.pow_eq] at bounded
    omega
  apply BitVec.eq_of_toNat_eq
  simpa [unpackMantissa, bits] using fraction

theorem toBits_ofMagnitude (bounded : magnitude ≤ infinityMagnitude) :
    (ofMagnitude magnitude).toBits.toNat = magnitude := by
  have packed : (ofMagnitude magnitude).toBits.toBitVec = magnitude.toUInt64.toBitVec := by
    have back := @pack_unpack Format.binary64 magnitude.toUInt64.toBitVec (by decide)
    rwa [isNaNBits_of_le bounded, if_neg Bool.false_ne_true] at back
  rw [UInt64.toBitVec_inj.mp packed, toUInt64_toNat bounded]

theorem magnitude_ofMagnitude (bounded : magnitude ≤ infinityMagnitude) :
    (ofMagnitude magnitude).magnitude = magnitude := by
  rw [Number.magnitude, toBits_ofMagnitude bounded]
  exact Nat.mod_eq_of_lt (Nat.lt_of_le_of_lt bounded (by decide))

/-- The text of a number made from a magnitude is the text of the magnitude. -/
theorem Layout.write_ofMagnitude (layout : Layout) (bounded : magnitude ≤ infinityMagnitude) :
    layout.write (ofMagnitude magnitude) = layout.unsigned magnitude := by
  have number : (ofMagnitude magnitude).isNaN = false := by
    simpa [isNaN, magnitude_ofMagnitude bounded] using bounded
  have unsigned : (ofMagnitude magnitude).isNegative = false := by
    simpa [isNegative, toBits_ofMagnitude bounded] using Nat.lt_of_le_of_lt bounded (by decide)
  rw [Layout.write, number, unsigned, magnitude_ofMagnitude bounded]
  rfl

end

end Lox.Number
