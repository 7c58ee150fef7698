import Lox.Proofs.Number.Rounding
import Lox.Proofs.Number.Texts

/-! The decade of a number.

The first digit of the shortest numeral stands where the decade of the number begins, unless
the numeral is rounded up to the beginning of the next one. That beginning is then a number
itself as far as reading goes, so the comparison with a power of ten that is read exactly, or
from below, is a comparison of exponents.
-/

set_option autoImplicit false

namespace Lox.Number

/-! Powers of ten around a number -/

theorem digits_bounds {number : Nat} (positive : 0 < number) :
    10 ^ ((Nat.toDigits 10 number).length - 1) ≤ number ∧
      number < 10 ^ (Nat.toDigits 10 number).length := by
  have some : 0 < (Nat.toDigits 10 number).length := Nat.length_toDigits_pos
  have upper := (Nat.length_toDigits_le_iff (b := 10) (n := number) (by decide) some).mp le_rfl
  refine ⟨?_, upper⟩
  by_contra less
  rcases Nat.eq_zero_or_pos ((Nat.toDigits 10 number).length - 1) with none | more
  · rw [none] at less
    omega
  · have shorter := (Nat.length_toDigits_le_iff (b := 10) (by decide) more).mpr (Nat.lt_of_not_le less)
    omega

section
variable {numerator denominator : Nat}

theorem floorLog10_bounds (above : 0 < numerator) (below : 0 < denominator) :
    (10 : ℚ) ^ floorLog10 numerator denominator ≤ (numerator : ℚ) / denominator ∧
      (numerator : ℚ) / denominator < (10 : ℚ) ^ (floorLog10 numerator denominator + 1) := by
  have compare (exponent : Int) :
      denominator * 10 ^ exponent.toNat ≤ numerator * 10 ^ (-exponent).toNat ↔
        (10 : ℚ) ^ exponent ≤ (numerator : ℚ) / denominator := by
    exact_mod_cast pow_le_div_iff (by decide : 0 < 10) below exponent
  rw [← not_le, ← compare, ← compare]
  unfold floorLog10
  split
  case isTrue large =>
    obtain ⟨lower, upper⟩ := digits_bounds (Nat.div_pos large below)
    have some : 0 < (Nat.toDigits 10 (numerator / denominator)).length := Nat.length_toDigits_pos
    rw [Nat.le_div_iff_mul_le below] at lower
    rw [Nat.div_lt_iff_lt_mul below] at upper
    generalize (Nat.toDigits 10 (numerator / denominator)).length = length at *
    obtain ⟨length, rfl⟩ : ∃ less, length = less + 1 := ⟨length - 1, by omega⟩
    rw [show ((length + 1 : Nat) : Int) - 1 + 1 = (length + 1 : Nat) by omega,
      show ((length + 1 : Nat) : Int) - 1 = (length : Nat) by omega]
    simp only [Int.toNat_natCast, Int.toNat_neg_natCast, pow_zero, mul_one, not_le]
    rw [Nat.mul_comm, Nat.mul_comm denominator]
    exact ⟨lower, upper⟩
  case isFalse small =>
    -- The digits of the inverse count the places behind the point.
    obtain ⟨lower, upper⟩ := digits_bounds (Nat.div_pos (Nat.le_of_not_le small) above)
    have some : 0 < (Nat.toDigits 10 (denominator / numerator)).length := Nat.length_toDigits_pos
    rw [Nat.le_div_iff_mul_le above] at lower
    rw [Nat.div_lt_iff_lt_mul above] at upper
    simp only
    generalize (Nat.toDigits 10 (denominator / numerator)).length = length at *
    obtain ⟨length, rfl⟩ : ∃ less, length = less + 1 := ⟨length - 1, by omega⟩
    rw [Nat.add_sub_cancel] at lower
    simp only [Nat.pow_eq, Nat.add_sub_cancel]
    split
    case isTrue fits =>
      rw [show (1 : Int) - (length + 1 : Nat) = -(length : Nat) by omega]
      refine ⟨by simpa using fits, ?_⟩
      cases length with
      | zero => simp; omega
      | succ length =>
        rw [show -((length + 1 : Nat) : Int) + 1 = -(length : Nat) by omega]
        simp only [Int.toNat_natCast, Int.toNat_neg_natCast, neg_neg, pow_zero, mul_one, not_le]
        calc numerator * 10 ^ length < 10 ^ (length + 1) * numerator := by
              rw [Nat.mul_comm]
              gcongr <;> omega
          _ ≤ denominator := lower
    case isFalse exceeds =>
      rw [show -((length + 1 : Nat) : Int) + 1 = -(length : Nat) by omega]
      simp only [Int.toNat_natCast, Int.toNat_neg_natCast, neg_neg, pow_zero, mul_one]
      rw [Nat.mul_comm numerator]
      exact ⟨upper.le, exceeds⟩

theorem digits_of_neighbours {numeral : Numeral} {exponent : Int}
    (among : numeral ∈ neighbours numerator denominator exponent) :
    numeral.exponent = exponent ∧
      (numeral.digits = numerator * 10 ^ (-exponent).toNat / (denominator * 10 ^ exponent.toNat) ∨
        numeral.digits = numerator * 10 ^ (-exponent).toNat / (denominator * 10 ^ exponent.toNat) + 1) := by
  unfold neighbours roundDiv at among
  simp only [Nat.pow_eq, List.mem_cons, List.not_mem_nil, or_false] at among
  rcases among with rfl | rfl
  · refine ⟨rfl, ?_⟩
    simp only
    split <;> simp
  · refine ⟨rfl, ?_⟩
    simp only
    split <;> simp

end

/-! Numerals in a decade -/

namespace Numeral

variable {numeral other : Numeral}

def value (numeral : Numeral) : ℚ := numeral.digits * (10 : ℚ) ^ numeral.exponent

theorem magnitude_congr (same : numeral.value = other.value) : numeral.magnitude = other.magnitude := by
  have split (numeral : Numeral) : numeral.value =
      (numeral.digits * 10 ^ numeral.exponent.toNat : Nat) / (10 ^ (-numeral.exponent).toNat : Nat) := by
    unfold value
    rcases numeral.exponent.eq_nat_or_neg with ⟨power, same | same⟩ <;> rw [same] <;> simp [div_eq_mul_inv]
  rw [split, split, div_eq_div_iff (by positivity) (by positivity)] at same
  have positive (places : Nat) : 0 < 10 ^ places := by positivity
  exact magnitudeOfRatio_congr (positive _) (positive _) (by exact_mod_cast same)

theorem bounds_of_significant (positive : 0 < numeral.digits) :
    (10 : ℚ) ^ (Significant.ofNumeral numeral).exponent ≤ numeral.value ∧
      numeral.value < (10 : ℚ) ^ ((Significant.ofNumeral numeral).exponent + 1) := by
  obtain ⟨first, others, count, split, same⟩ := Significant.ofNumeral_eq positive
  have length : (Nat.toDigits 10 numeral.digits).length = others.length + count + 1 := by
    rw [split]
    simp [zeros]
  obtain ⟨lower, upper⟩ := digits_bounds positive
  rw [length] at lower upper
  rw [same, value]
  simp only
  have ten : (10 : ℚ) ≠ 0 := by norm_num
  rw [show numeral.exponent + (others.length : Int) + count + 1 =
      (others.length + count + 1 : Nat) + numeral.exponent by push_cast; ring,
    show numeral.exponent + (others.length : Int) + count =
      (others.length + count : Nat) + numeral.exponent by push_cast; ring,
    zpow_add₀ ten, zpow_add₀ ten, zpow_natCast, zpow_natCast]
  constructor
  · gcongr
    exact_mod_cast lower
  · gcongr
    exact_mod_cast upper

end Numeral

section
variable {numerator denominator : Nat} {numeral : Numeral} {top : Int}

/-- On a grid of its decade, a number has both neighbours within the decade and its end. -/
theorem bounds_of_neighbours {places : Nat} (below : 0 < denominator)
    (lower : (10 : ℚ) ^ top ≤ (numerator : ℚ) / denominator)
    (upper : (numerator : ℚ) / denominator < (10 : ℚ) ^ (top + 1))
    (among : numeral ∈ neighbours numerator denominator (top - places)) :
    (10 : ℚ) ^ top ≤ numeral.value ∧ numeral.value ≤ (10 : ℚ) ^ (top + 1) := by
  obtain ⟨grid, digits⟩ := digits_of_neighbours among
  have ten : (10 : ℚ) ≠ 0 := by norm_num
  have unit : (0 : ℚ) < (10 : ℚ) ^ (top - (places : Int)) := by positivity
  have units : ((numerator * 10 ^ (-(top - places)).toNat : Nat) : ℚ) /
      (denominator * 10 ^ (top - places).toNat : Nat) * (10 : ℚ) ^ (top - (places : Int)) =
        (numerator : ℚ) / denominator := by
    have denominators : (denominator : ℚ) ≠ 0 := by exact_mod_cast below.ne'
    rcases (top - (places : Int)).eq_nat_or_neg with ⟨power, same | same⟩ <;> rw [same] <;>
      simp <;> field_simp
  have scale (more : Nat) :
      (10 : ℚ) ^ (top + more) = ((10 ^ (places + more) : Nat) : ℚ) * (10 : ℚ) ^ (top - (places : Int)) := by
    rw [show top + (more : Int) = (places + more : Nat) + (top - places) by omega, zpow_add₀ ten, zpow_natCast]
    push_cast
    rfl
  have first := scale 0
  have last := scale 1
  simp only [Nat.cast_zero, Nat.cast_one, add_zero] at first last
  -- Counted in units of the grid, the number lies between two whole powers of ten.
  rw [← units, first, mul_le_mul_iff_left₀ unit] at lower
  rw [← units, last, mul_lt_mul_iff_left₀ unit] at upper
  have grids : 0 < denominator * 10 ^ (top - (places : Int)).toNat := by positivity
  have gridsCast : (0 : ℚ) < (denominator * 10 ^ (top - (places : Int)).toNat : Nat) := by
    exact_mod_cast grids
  rw [le_div_iff₀ gridsCast] at lower
  rw [div_lt_iff₀ gridsCast] at upper
  have floorLow := (Nat.le_div_iff_mul_le grids).mpr (by exact_mod_cast lower)
  have floorHigh := (Nat.div_lt_iff_lt_mul grids).mpr (by exact_mod_cast upper)
  rw [Numeral.value, grid, first, last, mul_le_mul_iff_left₀ unit, mul_le_mul_iff_left₀ unit]
  constructor
  · exact_mod_cast (by omega : 10 ^ places ≤ numeral.digits)
  · exact_mod_cast (by omega : numeral.digits ≤ 10 ^ (places + 1))

end

/-! The decade of a magnitude -/

def absolute (magnitude : Nat) : ℚ :=
  (Scaled.ofMagnitude magnitude).ratio.1 / (Scaled.ofMagnitude magnitude).ratio.2

theorem exactNumeral_value (value : Scaled) :
    (exactNumeral value).value = (value.ratio.1 : ℚ) / value.ratio.2 := by
  unfold Numeral.value exactNumeral Scaled.ratio
  simp only [Nat.pow_eq]
  rcases value.exponent.eq_nat_or_neg with ⟨power, same | same⟩
  · rw [same]
    simp
  · rw [same, show min (-(power : Int)) 0 = -(power : Int) by omega]
    have split : (10 : ℚ) ^ power = 5 ^ power * 2 ^ power := by rw [← mul_pow]; norm_num
    simp [split]
    field_simp

section
variable {magnitude : Nat}

theorem exists_decade (positive : 0 < magnitude) : ∃ top : Int,
    ((10 : ℚ) ^ top ≤ absolute magnitude ∧ absolute magnitude < (10 : ℚ) ^ (top + 1)) ∧
      (10 : ℚ) ^ top ≤ (shortest magnitude).value ∧
      (shortest magnitude).value ≤ (10 : ℚ) ^ (top + 1) := by
  have above : 0 < (Scaled.ofMagnitude magnitude).ratio.1 :=
    Nat.mul_pos (Scaled.significand_pos positive) (Nat.pow_pos (by decide : 0 < 2))
  have below : 0 < (Scaled.ofMagnitude magnitude).ratio.2 := Nat.pow_pos (by decide : 0 < 2)
  obtain ⟨lower, upper⟩ := floorLog10_bounds above below
  refine ⟨_, ⟨lower, upper⟩, ?_⟩
  unfold shortest shortestFrom
  simp only
  generalize search : List.findSome? _ _ = found
  cases found with
  | none =>
    rw [Option.getD_none, exactNumeral_value]
    exact ⟨lower, upper.le⟩
  | some numeral =>
    obtain ⟨places, -, among⟩ := List.exists_of_findSome?_eq_some search
    exact bounds_of_neighbours below lower upper (List.mem_of_find?_eq_some among)

/-- The exponent of a number is compared with one whose power of ten is read exactly, or from
below. -/
theorem le_exponent_iff {exponent : Int} (positive : 0 < magnitude)
    (finite : magnitude < infinityMagnitude)
    (reached : (10 : ℚ) ^ exponent ≤ absolute (magnitudeOfDecimal 1 exponent)) :
    exponent ≤ (Significant.ofMagnitude magnitude).exponent ↔
      (10 : ℚ) ^ exponent ≤ absolute magnitude := by
  have ten : (1 : ℚ) < 10 := by norm_num
  obtain ⟨top, ⟨lower, upper⟩, low, high⟩ := exists_decade positive
  have sound := shortest_magnitude positive finite
  have digits : 0 < (shortest magnitude).digits := by
    rw [Nat.pos_iff_ne_zero]
    intro none
    rw [Numeral.magnitude, none, magnitudeOfDecimal_zero] at sound
    exact positive.ne sound
  obtain ⟨first, next⟩ := Numeral.bounds_of_significant digits
  rw [Significant.ofMagnitude, if_neg positive.ne']
  constructor
  · intro reaches
    rcases Int.lt_or_le top exponent with less | within
    · -- The numeral is the power of ten itself, rounded up.
      have within := (zpow_le_zpow_iff_right₀ ten).mp (first.trans high)
      obtain rfl : exponent = top + 1 := by omega
      have same : (Significant.ofNumeral (shortest magnitude)).exponent = top + 1 := by omega
      rw [same] at first
      have power : (shortest magnitude).value = Numeral.value ⟨1, top + 1⟩ := by
        rw [le_antisymm high first, Numeral.value]
        simp
      rw [Numeral.magnitude_congr power] at sound
      rw [← sound]
      exact reached
    · exact ((zpow_le_zpow_iff_right₀ ten).mpr within).trans lower
  · intro reaches
    have within := (zpow_lt_zpow_iff_right₀ ten).mp (reaches.trans_lt upper)
    have after := (zpow_lt_zpow_iff_right₀ ten).mp (low.trans_lt next)
    omega

end

end Lox.Number
