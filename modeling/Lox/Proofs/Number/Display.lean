import Lox.Proofs.Number.Signs
import Lox.Proofs.Number.Texts

/-! Printed numbers.

A number that is printed without an exponent is a numeral of the language behind its sign,
with no point where nothing stands behind it. Printed texts are read like those that keep
the point, so no two numbers are printed in the same way.
-/

set_option autoImplicit false

namespace Lox.Number

open Nat (ofDigitChars)
open Token (numeral)

/-! Printed digits -/

def Significant.whole (digits : Significant) : List Char :=
  digits.first :: digits.others.take digits.exponent.toNat ++
    zeros (digits.exponent.toNat - digits.others.length)

def Significant.behind (digits : Significant) : List Char := digits.others.drop digits.exponent.toNat

section
variable {digits : Significant} {layout : Layout}

theorem positional_below_one (small : digits.exponent < 0) :
    layout.positional digits =
      ['0'] ++ '.' :: (zeros (-digits.exponent - 1).toNat ++ digits.first :: digits.others) := by
  unfold Layout.positional
  rw [if_pos small]
  rfl

theorem positional_whole (large : 0 ≤ digits.exponent) (ends : digits.behind = []) :
    layout.positional digits = digits.whole ++ layout.wholeEnd.toList := by
  unfold Layout.positional
  rw [if_neg (Int.not_lt.mpr large)]
  simp only
  rw [show digits.others.drop digits.exponent.toNat = [] from ends]
  rfl

theorem positional_point (large : 0 ≤ digits.exponent) (goesOn : digits.behind ≠ []) :
    layout.positional digits = digits.whole ++ '.' :: digits.behind := by
  unfold Layout.positional
  rw [if_neg (Int.not_lt.mpr large)]
  simp only
  split
  case h_1 ends => exact absurd ends goesOn
  case h_2 => rfl

/-- Without an exponent, digits are printed as a numeral of the language. -/
theorem exists_numeral (numeric : digits.Numeric) :
    ∃ whole fraction, Layout.display.positional digits = numeral whole fraction ∧ whole ≠ [] ∧
      (∀ c ∈ whole, c.isDigit = true) ∧ (∀ c ∈ fraction, c.isDigit = true) ∧
      magnitudeOfDecimal (ofDigitChars 10 (whole ++ fraction) 0) (-fraction.length) =
        digits.magnitude := by
  obtain ⟨-, others⟩ := List.forall_mem_cons.mp numeric
  have wholeDigits : ∀ c ∈ digits.whole, c.isDigit = true := numeric.before_zeros _ _
  have behindDigits : ∀ c ∈ digits.behind, c.isDigit = true :=
    fun c member => others c (List.mem_of_mem_drop member)
  rcases Int.lt_or_le digits.exponent 0 with small | large
  · have behind := numeric.behind_zeros (-digits.exponent - 1).toNat
    have zero : ∀ c ∈ ['0'], c.isDigit = true := List.forall_mem_singleton.mpr rfl
    have value := read_below_one numeric small
    rw [positional_below_one small, read_point zero behind] at value
    exact ⟨['0'], _, by simp [positional_below_one small, numeral], by simp, zero, behind, value⟩
  · have value := read_above_one numeric large
    by_cases ends : digits.behind = []
    · -- The zero behind the point counts for nothing.
      rw [positional_whole large ends, show Layout.plain.wholeEnd.toList = '.' :: zeros 1 from rfl,
        read_point wholeDigits isDigit_of_mem_zeros, Nat.ofDigitChars_append, ofDigitChars_zeros] at value
      have shifted := magnitudeOfDecimal_shift (ofDigitChars 10 digits.whole 0) 1 0
      have none : ∀ c ∈ ([] : List Char), c.isDigit = true := List.forall_mem_nil _
      refine ⟨digits.whole, [], ?_, List.cons_ne_nil _ _, wholeDigits, none, ?_⟩
      · rw [positional_whole large ends]
        rfl
      · rw [List.append_nil, ← value]
        exact shifted.symm
    · rw [positional_point large ends, read_point wholeDigits behindDigits] at value
      refine ⟨digits.whole, digits.behind, ?_, List.cons_ne_nil _ _, wholeDigits, behindDigits, value⟩
      simp [positional_point large ends, numeral, ends]

theorem read_whole {whole : List Char} (digits : ∀ c ∈ whole, c.isDigit = true) :
    read whole = magnitudeOfDecimal (ofDigitChars 10 whole 0) 0 := by
  have finite : whole ≠ Layout.plain.infinity.toList := by
    rintro rfl
    exact absurd (digits 'i' List.mem_cons_self) (by decide)
  obtain ⟨mantissa, exponent⟩ :=
    @Token.takeWhile_of_cut (· ≠ 'e') whole [] (ne_of_isDigit rfl digits) (by simp)
  rw [List.append_nil] at mantissa exponent
  rw [read, if_neg finite, mantissa, exponent, readDigits_whole digits]
  rfl

theorem read_printed (numeric : digits.Numeric) : read (Layout.display.finite digits) = digits.magnitude := by
  unfold Layout.finite
  split
  · obtain ⟨whole, fraction, text, -, before, behind, value⟩ := exists_numeral numeric
    rw [text, ← value, numeral]
    cases fraction with
    | nil => simpa using read_whole before
    | cons first others => exact read_point before behind
  · exact read_scientific numeric

theorem printed_head (numeric : digits.Numeric) :
    ∃ c ∈ (Layout.display.finite digits).head?, c.isDigit = true := by
  obtain ⟨first, -⟩ := List.forall_mem_cons.mp numeric
  unfold Layout.finite
  split
  · obtain ⟨whole, fraction, text, filled, before, -, -⟩ := exists_numeral numeric
    obtain ⟨c, others, rfl⟩ := List.exists_cons_of_ne_nil filled
    rw [text]
    exact ⟨c, rfl, before c List.mem_cons_self⟩
  · exact ⟨digits.first, rfl, first⟩

theorem mem_finite_iff (numeric : digits.Numeric) :
    'e' ∈ Layout.display.finite digits ↔ ¬ (-4 ≤ digits.exponent ∧ digits.exponent < 16) := by
  unfold Layout.finite
  split
  case isTrue within =>
    obtain ⟨whole, fraction, text, -, before, behind, -⟩ := exists_numeral numeric
    refine iff_of_false ?_ (not_not_intro within)
    rw [text, numeral]
    intro member
    rcases List.mem_append.mp member with member | member
    · exact absurd (before _ member) (by decide)
    · split at member
      · cases member
      · rcases List.mem_cons.mp member with same | member
        · exact absurd same (by decide)
        · exact absurd (behind _ member) (by decide)
  case isFalse outside => exact iff_of_true (by simp [scientific]) outside

end

/-! Printed magnitudes -/

section
variable {magnitude other : Nat}

theorem unsigned_head (bounded : magnitude ≤ infinityMagnitude) :
    (magnitude = infinityMagnitude ∧ (Layout.display.unsigned magnitude).head? = some 'I') ∨
      ∃ c ∈ (Layout.display.unsigned magnitude).head?, c.isDigit = true := by
  rcases unsigned_cases Layout.display bounded with ⟨infinite, text⟩ | ⟨digits, numeric, -, text⟩
  · exact .inl ⟨infinite, by rw [text]; rfl⟩
  · exact .inr (text ▸ printed_head numeric)

theorem unsigned_inj (bounded : magnitude ≤ infinityMagnitude) (also : other ≤ infinityMagnitude)
    (same : Layout.display.unsigned magnitude = Layout.display.unsigned other) : magnitude = other := by
  have infinityOnly : ∀ {magnitude : Nat}, magnitude ≤ infinityMagnitude →
      (Layout.display.unsigned magnitude).head? = some 'I' → magnitude = infinityMagnitude := by
    intro magnitude bounded head
    rcases unsigned_head bounded with ⟨infinite, -⟩ | ⟨c, begins, digit⟩
    · exact infinite
    · rw [head] at begins
      cases begins
      cases digit
  rcases unsigned_cases Layout.display bounded with ⟨rfl, text⟩ | ⟨digits, numeric, rfl, text⟩
  · exact (infinityOnly also (by rw [← same, text]; rfl)).symm
  rcases unsigned_cases Layout.display also with ⟨rfl, second⟩ | ⟨twin, twins, rfl, second⟩
  · exact infinityOnly bounded (by rw [same, second]; rfl)
  · rw [← read_printed numeric, ← read_printed twins, ← text, ← second, same]

end

/-! Printed numbers -/

section
variable {x y : Number}

theorem write_of_isNegative (number : x.isNaN = false) (negative : x.isNegative = true) :
    Layout.display.write x = '-' :: Layout.display.unsigned x.magnitude := by
  simp [Layout.write, number, negative]

theorem write_of_not_isNegative (number : x.isNaN = false) (unsigned : x.isNegative = false) :
    Layout.display.write x = Layout.display.unsigned x.magnitude := by
  simp [Layout.write, number, unsigned]

theorem write_head (x : Number) : (Layout.display.write x).head? =
    if x.isNaN then some 'N' else if x.isNegative then some '-'
    else (Layout.display.unsigned x.magnitude).head? := by
  unfold Layout.write
  split
  · rfl
  · split <;> rfl

theorem unsigned_head_ne (bounded : x.magnitude ≤ infinityMagnitude) :
    (Layout.display.unsigned x.magnitude).head? ≠ some 'N' ∧
      (Layout.display.unsigned x.magnitude).head? ≠ some '-' := by
  rcases unsigned_head bounded with ⟨-, head⟩ | ⟨c, begins, digit⟩
  · rw [head]
    decide
  · rw [Option.mem_def.mp begins]
    constructor <;> rintro ⟨⟩ <;> cases digit

theorem isNaN_iff_head : x.isNaN = true ↔ (Layout.display.write x).head? = some 'N' := by
  rw [write_head]
  cases number : x.isNaN with
  | true => simp
  | false =>
    cases x.isNegative with
    | true => simp
    | false => simpa using (unsigned_head_ne (magnitude_le_of_not_isNaN number)).1

theorem isNegative_iff_head (number : x.isNaN = false) :
    x.isNegative = true ↔ (Layout.display.write x).head? = some '-' := by
  rw [write_head, number]
  cases x.isNegative with
  | true => simp
  | false => simpa using (unsigned_head_ne (magnitude_le_of_not_isNaN number)).2

/-- No two numbers are printed in the same way. -/
theorem write_inj (same : Layout.display.write x = Layout.display.write y) : x = y := by
  have nans : x.isNaN = y.isNaN := by
    rw [Bool.eq_iff_iff, isNaN_iff_head, isNaN_iff_head, same]
  cases number : x.isNaN with
  | true => exact eq_of_isNaN number (nans.symm.trans number)
  | false =>
    have also : y.isNaN = false := nans.symm.trans number
    have signs : x.isNegative = y.isNegative := by
      rw [Bool.eq_iff_iff, isNegative_iff_head number, isNegative_iff_head also, same]
    have texts : Layout.display.unsigned x.magnitude = Layout.display.unsigned y.magnitude := by
      cases negative : x.isNegative with
      | true =>
        rw [write_of_isNegative number negative,
          write_of_isNegative also (signs.symm.trans negative)] at same
        exact (List.cons.inj same).2
      | false =>
        rwa [write_of_not_isNegative number negative,
          write_of_not_isNegative also (signs.symm.trans negative)] at same
    exact eq_of_parts signs (unsigned_inj (magnitude_le_of_not_isNaN number)
      (magnitude_le_of_not_isNaN also) texts)

end

end Lox.Number
