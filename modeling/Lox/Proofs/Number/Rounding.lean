import Lox.Number.Shortest
import Mathlib.Algebra.Order.Field.Power
import Mathlib.Algebra.Order.Floor.Semifield
import Mathlib.Data.Int.Log
import Mathlib.Data.Rat.Floor
import Mathlib.Tactic.FieldSimp
import Mathlib.Tactic.Positivity
import Mathlib.Tactic.Ring

/-! Rounding as a function of the quotient.

The numerals of one value differ in numerator and denominator; what is rounded
is their quotient alone. Powers of two and of ten stand in the numerator or in
the denominator, as the sign of their exponent tells.
-/

set_option autoImplicit false

namespace Lox.Number

section
variable {numerator denominator : Nat}

/-- The comparison of two products of natural numbers is one of the quotient with a power. -/
theorem pow_le_div_iff {base : Nat} (some : 0 < base) (positive : 0 < denominator) (exponent : Int) :
    denominator * base ^ exponent.toNat ≤ numerator * base ^ (-exponent).toNat ↔
      (base : ℚ) ^ exponent ≤ (numerator : ℚ) / denominator := by
  have above : (0 : ℚ) < denominator := by exact_mod_cast positive
  have bases : (0 : ℚ) < base := by exact_mod_cast some
  rw [le_div_iff₀ above]
  rcases exponent.eq_nat_or_neg with ⟨power, rfl | rfl⟩
  · simp only [Int.toNat_natCast, Int.toNat_neg_natCast, pow_zero, mul_one, zpow_natCast]
    rw [Nat.mul_comm]
    exact_mod_cast Iff.rfl
  · simp only [Int.toNat_neg_natCast, neg_neg, Int.toNat_natCast, pow_zero, mul_one, zpow_neg,
      zpow_natCast]
    rw [← div_eq_inv_mul, div_le_iff₀ (by positivity)]
    exact_mod_cast Iff.rfl

theorem log_eq_of_bounds {value : ℚ} {exponent : Int} (positive : 0 < value)
    (lower : (2 : ℚ) ^ exponent ≤ value) (upper : value < (2 : ℚ) ^ (exponent + 1)) :
    Int.log 2 value = exponent := by
  have low := (Int.zpow_le_iff_le_log Nat.one_lt_two positive).mp lower
  have high := (Int.lt_zpow_iff_log_lt Nat.one_lt_two positive).mp upper
  omega

theorem estimate_bounds (above : 0 < numerator) (below : 0 < denominator) :
    (2 : ℚ) ^ ((numerator.log2 : Int) - denominator.log2 - 1) < (numerator : ℚ) / denominator ∧
      (numerator : ℚ) / denominator < (2 : ℚ) ^ ((numerator.log2 : Int) - denominator.log2 + 1) := by
  have positive : (0 : ℚ) < denominator := by exact_mod_cast below
  -- Each of both numbers lies between a power of two and the next.
  have numeratorLow : (2 : ℚ) ^ numerator.log2 ≤ numerator := by
    exact_mod_cast Nat.log2_self_le above.ne'
  have numeratorHigh : (numerator : ℚ) < 2 ^ (numerator.log2 + 1) := by
    exact_mod_cast Nat.lt_log2_self
  have denominatorLow : (2 : ℚ) ^ denominator.log2 ≤ denominator := by
    exact_mod_cast Nat.log2_self_le below.ne'
  have denominatorHigh : (denominator : ℚ) < 2 ^ (denominator.log2 + 1) := by
    exact_mod_cast Nat.lt_log2_self
  rw [show (numerator.log2 : Int) - denominator.log2 - 1 =
      (numerator.log2 : Int) - (denominator.log2 + 1 : Nat) by omega,
    show (numerator.log2 : Int) - denominator.log2 + 1 =
      (numerator.log2 + 1 : Nat) - (denominator.log2 : Int) by omega,
    zpow_sub₀ two_ne_zero, zpow_sub₀ two_ne_zero]
  simp only [zpow_natCast]
  rw [div_lt_div_iff₀ (by positivity) positive, div_lt_div_iff₀ positive (by positivity)]
  -- Cross-multiplied, both bounds change one factor at a time.
  constructor
  · calc (2 : ℚ) ^ numerator.log2 * denominator ≤ numerator * denominator := by gcongr
      _ < numerator * 2 ^ (denominator.log2 + 1) := by gcongr
  · calc (numerator : ℚ) * 2 ^ denominator.log2 ≤ numerator * denominator := by gcongr
      _ < 2 ^ (numerator.log2 + 1) * denominator := by gcongr

theorem floorLog2_eq (above : 0 < numerator) (below : 0 < denominator) :
    floorLog2 numerator denominator = Int.log 2 ((numerator : ℚ) / denominator) := by
  have positive : (0 : ℚ) < (numerator : ℚ) / denominator := by positivity
  obtain ⟨lower, upper⟩ := estimate_bounds above below
  -- The estimate is the logarithm or greater by one, and the comparison tells which.
  unfold floorLog2
  simp only [Nat.pow_eq, pow_le_div_iff two_pos below, Nat.cast_ofNat]
  split
  case isTrue fits => exact (log_eq_of_bounds positive fits upper).symm
  case isFalse exceeds =>
    refine (log_eq_of_bounds positive lower.le ?_).symm
    rw [Int.sub_add_cancel]
    exact lt_of_not_ge exceeds

/-! Rounding to whole numbers -/

theorem roundDiv_scale {factor : Nat} (positive : 0 < factor) :
    roundDiv (factor * numerator) (factor * denominator) = roundDiv numerator denominator := by
  unfold roundDiv
  simp only [Nat.mul_div_mul_left _ _ positive, Nat.mul_mod_mul_left, Nat.mul_left_comm 2 factor,
    Nat.mul_lt_mul_left positive, Nat.mul_right_inj positive.ne']

theorem roundDiv_mul {whole : Nat} (positive : 0 < denominator) :
    roundDiv (whole * denominator) denominator = whole := by
  simp [roundDiv, Nat.mul_div_cancel _ positive, positive]

variable {otherNumerator otherDenominator : Nat}

theorem roundDiv_congr (positive : 0 < denominator) (others : 0 < otherDenominator)
    (same : numerator * otherDenominator = otherNumerator * denominator) :
    roundDiv numerator denominator = roundDiv otherNumerator otherDenominator :=
  calc roundDiv numerator denominator
      = roundDiv (otherDenominator * numerator) (otherDenominator * denominator) :=
        (roundDiv_scale others).symm
    _ = roundDiv (denominator * otherNumerator) (denominator * otherDenominator) := by
        rw [Nat.mul_comm _ numerator, same, Nat.mul_comm otherNumerator, Nat.mul_comm otherDenominator]
    _ = roundDiv otherNumerator otherDenominator := roundDiv_scale positive

/-! Rounding to magnitudes -/

@[simp]
theorem magnitudeOfRatio_zero : magnitudeOfRatio 0 denominator = 0 := rfl

theorem magnitudeOfRatio_le : magnitudeOfRatio numerator denominator ≤ infinityMagnitude := by
  unfold magnitudeOfRatio
  split
  · exact Nat.zero_le _
  · exact Nat.min_le_left _ _

theorem unitExponent_congr (above : 0 < numerator) (positive : 0 < denominator)
    (others : 0 < otherDenominator)
    (same : numerator * otherDenominator = otherNumerator * denominator) :
    unitExponent numerator denominator = unitExponent otherNumerator otherDenominator := by
  have aboveOther : 0 < otherNumerator := by
    apply Nat.pos_of_mul_pos_right
    rw [← same]
    exact Nat.mul_pos above others
  have quotients : (numerator : ℚ) / denominator = otherNumerator / otherDenominator := by
    rw [div_eq_div_iff (by positivity) (by positivity)]
    exact_mod_cast same
  rw [unitExponent, unitExponent, floorLog2_eq above positive, floorLog2_eq aboveOther others, quotients]

/-- Equal quotients round to equal magnitudes. -/
theorem magnitudeOfRatio_congr (positive : 0 < denominator) (others : 0 < otherDenominator)
    (same : numerator * otherDenominator = otherNumerator * denominator) :
    magnitudeOfRatio numerator denominator = magnitudeOfRatio otherNumerator otherDenominator := by
  rcases Nat.eq_zero_or_pos numerator with rfl | above
  · have none : otherNumerator = 0 := by
      rw [Nat.zero_mul, eq_comm, Nat.mul_eq_zero] at same
      exact same.resolve_right positive.ne'
    rw [none, magnitudeOfRatio_zero, magnitudeOfRatio_zero]
  · have aboveOther : otherNumerator ≠ 0 := by
      rintro rfl
      rw [Nat.zero_mul, Nat.mul_eq_zero] at same
      omega
    -- Both the unit and the number of units depend on the quotient alone.
    unfold magnitudeOfRatio
    rw [if_neg above.ne', if_neg aboveOther, unitExponent_congr above positive others same]
    simp only [Nat.pow_eq]
    congr 2
    apply roundDiv_congr (by positivity) (by positivity)
    calc _ = numerator * otherDenominator * _ := by rw [Nat.mul_mul_mul_comm]
      _ = _ := by rw [same, Nat.mul_mul_mul_comm]

end

/-! Rounding decimal numerals -/

theorem magnitudeOfDecimal_le {digits : Nat} {exponent : Int} :
    magnitudeOfDecimal digits exponent ≤ infinityMagnitude := magnitudeOfRatio_le

@[simp]
theorem magnitudeOfDecimal_zero {exponent : Int} : magnitudeOfDecimal 0 exponent = 0 := by
  rw [magnitudeOfDecimal, Nat.zero_mul, magnitudeOfRatio_zero]

/-- Zeros behind the digits count against the exponent. -/
theorem magnitudeOfDecimal_shift (digits places : Nat) (exponent : Int) :
    magnitudeOfDecimal (digits * 10 ^ places) (exponent - places) =
      magnitudeOfDecimal digits exponent := by
  unfold magnitudeOfDecimal
  simp only [Nat.pow_eq]
  apply magnitudeOfRatio_congr (by positivity) (by positivity)
  have powers : places + (exponent - places).toNat + (-exponent).toNat =
      exponent.toNat + (-(exponent - places)).toNat := by omega
  calc digits * 10 ^ places * 10 ^ (exponent - places).toNat * 10 ^ (-exponent).toNat
      = digits * 10 ^ (places + (exponent - places).toNat + (-exponent).toNat) := by ring
    _ = digits * 10 ^ exponent.toNat * 10 ^ (-(exponent - places)).toNat := by rw [powers]; ring

/-! Reading finite magnitudes back -/

theorem Scaled.ofMagnitude_canonical (magnitude : Nat) :
    (Scaled.ofMagnitude magnitude).significand < 2 ^ 53 ∧
      -1074 ≤ (Scaled.ofMagnitude magnitude).exponent ∧
      (2 ^ 52 ≤ (Scaled.ofMagnitude magnitude).significand ∨
        (Scaled.ofMagnitude magnitude).exponent = -1074) ∧
      ((Scaled.ofMagnitude magnitude).exponent + 1074).toNat * 2 ^ 52 +
        (Scaled.ofMagnitude magnitude).significand = magnitude := by
  unfold Scaled.ofMagnitude
  simp only [Nat.pow_eq]
  split <;> grind

section
variable {value : Scaled}

theorem Scaled.unit_eq (positive : 0 < value.significand) (bounded : value.significand < 2 ^ 53)
    (above : -1074 ≤ value.exponent) (leads : 2 ^ 52 ≤ value.significand ∨ value.exponent = -1074) :
    unitExponent value.ratio.1 value.ratio.2 = value.exponent := by
  have numerators : 0 < value.ratio.1 := by unfold Scaled.ratio; simp only [Nat.pow_eq]; positivity
  have denominators : 0 < value.ratio.2 := by unfold Scaled.ratio; simp only [Nat.pow_eq]; positivity
  have quotient : (value.ratio.1 : ℚ) / value.ratio.2 = value.significand * 2 ^ value.exponent := by
    unfold Scaled.ratio
    push_cast [Nat.pow_eq]
    rcases value.exponent.eq_nat_or_neg with ⟨power, same | same⟩ <;> rw [same] <;> simp [div_eq_mul_inv]
  have below : Int.log 2 ((value.significand : ℚ) * 2 ^ value.exponent) < 53 + value.exponent := by
    rw [← Int.lt_zpow_iff_log_lt Nat.one_lt_two (by positivity), Nat.cast_ofNat,
      zpow_add₀ two_ne_zero]
    have bound : (value.significand : ℚ) < 2 ^ (53 : Int) := by exact_mod_cast bounded
    gcongr
  rw [unitExponent, floorLog2_eq numerators denominators, quotient]
  -- A leading bit fixes the logarithm; without one the unit is the smallest.
  rcases leads with leads | smallest
  · have least : 52 + value.exponent ≤ Int.log 2 ((value.significand : ℚ) * 2 ^ value.exponent) := by
      rw [← Int.zpow_le_iff_le_log Nat.one_lt_two (by positivity), Nat.cast_ofNat,
        zpow_add₀ two_ne_zero]
      have bound : (2 : ℚ) ^ (52 : Int) ≤ value.significand := by exact_mod_cast leads
      gcongr
    omega
  · omega

theorem Scaled.magnitude_eq (positive : 0 < value.significand) (bounded : value.significand < 2 ^ 53)
    (above : -1074 ≤ value.exponent) (leads : 2 ^ 52 ≤ value.significand ∨ value.exponent = -1074) :
    magnitudeOfRatio value.ratio.1 value.ratio.2 =
      min infinityMagnitude ((value.exponent + 1074).toNat * 2 ^ 52 + value.significand) := by
  have numerators : value.ratio.1 ≠ 0 := by
    unfold Scaled.ratio
    simp only [Nat.pow_eq]
    positivity
  unfold magnitudeOfRatio
  rw [if_neg numerators, Scaled.unit_eq positive bounded above leads]
  have units : roundDiv (value.ratio.1 * 2 ^ (-value.exponent).toNat)
      (value.ratio.2 * 2 ^ value.exponent.toNat) = value.significand := by
    unfold Scaled.ratio
    simp only [Nat.pow_eq]
    rw [Nat.mul_assoc, Nat.mul_comm (2 ^ value.exponent.toNat)]
    exact roundDiv_mul (by positivity)
  simp only [Nat.pow_eq, units]

end

theorem Scaled.significand_pos {magnitude : Nat} (positive : 0 < magnitude) :
    0 < (Scaled.ofMagnitude magnitude).significand := by
  obtain ⟨-, -, leads, sum⟩ := Scaled.ofMagnitude_canonical magnitude
  rcases leads with leads | smallest
  · exact Nat.lt_of_lt_of_le (by positivity) leads
  · rw [smallest] at sum
    omega

theorem magnitudeOfRatio_ofMagnitude {magnitude : Nat} (positive : 0 < magnitude)
    (finite : magnitude < infinityMagnitude) :
    magnitudeOfRatio (Scaled.ofMagnitude magnitude).ratio.1 (Scaled.ofMagnitude magnitude).ratio.2 =
      magnitude := by
  obtain ⟨bounded, above, leads, sum⟩ := Scaled.ofMagnitude_canonical magnitude
  rw [Scaled.magnitude_eq (Scaled.significand_pos positive) bounded above leads, sum]
  exact Nat.min_eq_right finite.le

theorem exactNumeral_magnitude (value : Scaled) :
    (exactNumeral value).magnitude = magnitudeOfRatio value.ratio.1 value.ratio.2 := by
  unfold Numeral.magnitude exactNumeral magnitudeOfDecimal Scaled.ratio
  simp only [Nat.pow_eq]
  apply magnitudeOfRatio_congr (by positivity) (by positivity)
  rw [show (min value.exponent 0).toNat = 0 by omega,
    show (-min value.exponent 0).toNat = (-value.exponent).toNat by omega,
    show 10 ^ (-value.exponent).toNat = 5 ^ (-value.exponent).toNat * 2 ^ (-value.exponent).toNat from
      Nat.mul_pow 5 2 _]
  ring

/-- The numeral chosen for a positive finite magnitude reads back as that magnitude. -/
theorem shortest_magnitude {magnitude : Nat} (positive : 0 < magnitude)
    (finite : magnitude < infinityMagnitude) : (shortest magnitude).magnitude = magnitude := by
  unfold shortest shortestFrom
  simp only
  generalize search : List.findSome? _ _ = found
  -- What the search finds was tested; what it falls back on is exact.
  cases found with
  | none => exact (exactNumeral_magnitude _).trans (magnitudeOfRatio_ofMagnitude positive finite)
  | some numeral =>
    obtain ⟨places, -, among⟩ := List.exists_of_findSome?_eq_some search
    simpa using List.find?_some among

end Lox.Number
