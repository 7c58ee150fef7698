import Lox.Proofs.Number.Bits

/-! Sign, magnitude and NaN.

The sign and the magnitude of a number are its bits, so together they determine it. NaN
has one pattern, and every other number is the one of its magnitude, negated if it has
a sign.
-/

set_option autoImplicit false

namespace Lox.Number

open Float.Model (Format)
open Float.Model.UnpackedFloat (packedNaN unpackExponent unpackMantissa)

theorem xor_two_pow {value place : Nat} (small : value < 2 ^ place) :
    value ^^^ 2 ^ place = 2 ^ place + value := by
  have sum := Nat.two_pow_add_eq_or_of_lt small 1
  rw [Nat.mul_one] at sum
  rw [sum]
  apply Nat.eq_of_testBit_eq
  intro other
  rw [Nat.testBit_xor, Nat.testBit_or, Nat.testBit_two_pow]
  by_cases same : place = other
  · subst same
    simp [Nat.testBit_lt_two_pow small]
  · simp [same]

section
variable {x y : Number}

theorem toBits_eq (x : Number) :
    x.toBits.toNat = (if x.isNegative then 2 ^ 63 else 0) + x.magnitude := by
  have bound := x.toBits.toNat_lt
  unfold isNegative magnitude
  simp only [Nat.pow_eq, decide_eq_true_eq]
  split <;> omega

theorem eq_of_parts (signs : x.isNegative = y.isNegative) (magnitudes : x.magnitude = y.magnitude) :
    x = y := by
  apply Float.toBits_inj.mp
  apply UInt64.toNat_inj.mp
  rw [toBits_eq x, toBits_eq y, signs, magnitudes]

theorem magnitude_le_of_not_isNaN (number : x.isNaN = false) : x.magnitude ≤ infinityMagnitude := by
  simpa [isNaN] using number

theorem toBits_of_isNaN (nan : x.isNaN = true) : x.toBits.toBitVec = packedNaN Format.binary64 := by
  have beyond : infinityMagnitude < x.toBits.toBitVec.toNat % 2 ^ 63 := of_decide_eq_true nan
  simp only [infinityMagnitude, Nat.pow_eq] at beyond
  apply x.toModel.valid.eq_packedNaN
  · apply BitVec.eq_of_toNat_eq
    have field : x.toBits.toBitVec.toNat / 2 ^ 52 % 2 ^ 11 = 2047 := by omega
    simpa [unpackExponent, Nat.shiftRight_eq_div_pow, Float.toBits] using field
  · intro none
    have fraction : x.toBits.toBitVec.toNat % 2 ^ 52 = 0 := by
      have values := congrArg BitVec.toNat none
      simpa [unpackMantissa, Float.toBits] using values
    omega

theorem eq_of_isNaN (first : x.isNaN = true) (second : y.isNaN = true) : x = y :=
  Float.toBits_inj.mp (UInt64.toBitVec_inj.mp
    ((toBits_of_isNaN first).trans (toBits_of_isNaN second).symm))

theorem ofMagnitude_magnitude (number : x.isNaN = false) (unsigned : x.isNegative = false) :
    ofMagnitude x.magnitude = x := by
  have bounded := magnitude_le_of_not_isNaN number
  apply Float.toBits_inj.mp
  apply UInt64.toNat_inj.mp
  rw [toBits_ofMagnitude bounded, toBits_eq x, unsigned]
  simp

theorem negate_ofMagnitude (number : x.isNaN = false) (negative : x.isNegative = true) :
    (ofMagnitude x.magnitude).negate = x := by
  have bounded := magnitude_le_of_not_isNaN number
  have small : x.magnitude < 2 ^ 63 := Nat.mod_lt _ (by decide)
  have bits : (ofMagnitude x.magnitude).toBits ^^^ 0x8000000000000000 = x.toBits := by
    apply UInt64.toNat_inj.mp
    rw [UInt64.toNat_xor, toBits_ofMagnitude bounded, toBits_eq x, negative, if_pos rfl]
    exact xor_two_pow small
  rw [negate, bits]
  exact x.ofBits_toBits

end

end Lox.Number
