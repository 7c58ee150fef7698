import Lox.Proofs.Number.Rounding
import Lox.Number.Layout
import Lox.Proofs.Tiling.Lexeme

/-! Reading the texts of numbers.

A text gives its magnitude back: the digits on both sides of the point make one
whole number, whose exponent is the written one less the places behind the point.
So two magnitudes with one text are the same.
-/

set_option autoImplicit false

namespace Lox.Number

open Nat (ofDigitChars)
open Token (takeWhile_of_cut)

/-! Digits without trailing zeros -/

theorem ofDigitChars_zeros (count start : Nat) :
    ofDigitChars 10 (zeros count) start = start * 10 ^ count := by
  rw [zeros, Nat.ofDigitChars_replicate_zero, Nat.mul_comm]

theorem isDigit_of_mem_zeros {count : Nat} : ∀ c ∈ zeros count, c.isDigit = true := by
  intro c member
  rw [List.eq_of_mem_replicate member]
  rfl

theorem trailing_zeros (text : List Char) :
    ∃ count, text = (text.reverse.dropWhile (· = '0')).reverse ++ zeros count := by
  refine ⟨(text.reverse.takeWhile (· = '0')).length, ?_⟩
  have all : text.reverse.takeWhile (· = '0') = zeros (text.reverse.takeWhile (· = '0')).length :=
    List.eq_replicate_iff.mpr ⟨rfl, fun c member => by simpa using List.mem_takeWhile_imp member⟩
  calc text = (text.reverse.takeWhile (· = '0') ++ text.reverse.dropWhile (· = '0')).reverse := by
        rw [List.takeWhile_append_dropWhile, List.reverse_reverse]
    _ = (text.reverse.dropWhile (· = '0')).reverse ++ (text.reverse.takeWhile (· = '0')).reverse :=
        List.reverse_append
    _ = _ := by
        rw [all]
        simp [zeros]

namespace Significant

def Numeric (digits : Significant) : Prop :=
  ∀ c ∈ digits.first :: digits.others, c.isDigit = true

theorem Numeric.behind_zeros {digits : Significant} (numeric : digits.Numeric) (count : Nat) :
    ∀ c ∈ zeros count ++ digits.first :: digits.others, c.isDigit = true :=
  List.forall_mem_append.mpr ⟨isDigit_of_mem_zeros, numeric⟩

theorem Numeric.before_zeros {digits : Significant} (numeric : digits.Numeric) (places count : Nat) :
    ∀ c ∈ digits.first :: digits.others.take places ++ zeros count, c.isDigit = true := by
  obtain ⟨first, others⟩ := List.forall_mem_cons.mp numeric
  refine List.forall_mem_append.mpr ⟨List.forall_mem_cons.mpr ⟨first, ?_⟩, isDigit_of_mem_zeros⟩
  exact fun c member => others c (List.mem_of_mem_take member)

def magnitude (digits : Significant) : Nat :=
  magnitudeOfDecimal (ofDigitChars 10 (digits.first :: digits.others) 0)
    (digits.exponent - digits.others.length)

/-- The digits of a positive numeral are the significant ones and then zeros. -/
theorem ofNumeral_eq {numeral : Numeral} (positive : 0 < numeral.digits) :
    ∃ first others count, Nat.toDigits 10 numeral.digits = first :: others ++ zeros count ∧
      ofNumeral numeral = ⟨first, others, numeral.exponent + others.length + count⟩ := by
  obtain ⟨count, split⟩ := trailing_zeros (Nat.toDigits 10 numeral.digits)
  cases kept : ((Nat.toDigits 10 numeral.digits).reverse.dropWhile (· = '0')).reverse with
  | nil =>
    have value : ofDigitChars 10 (Nat.toDigits 10 numeral.digits) 0 = numeral.digits :=
      Nat.ofDigitChars_ten_toDigits
    rw [split, kept, List.nil_append, ofDigitChars_zeros] at value
    omega
  | cons first others =>
    rw [kept] at split
    refine ⟨first, others, count, split, ?_⟩
    have length : (Nat.toDigits 10 numeral.digits).length = others.length + 1 + count := by
      rw [split, List.length_append, List.length_cons, zeros, List.length_replicate]
    simp only [ofNumeral, kept, mk.injEq, true_and]
    omega

theorem ofNumeral_sound {numeral : Numeral} (positive : 0 < numeral.digits) :
    (ofNumeral numeral).Numeric ∧ (ofNumeral numeral).magnitude = numeral.magnitude := by
  obtain ⟨first, others, count, split, same⟩ := ofNumeral_eq positive
  have value : ofDigitChars 10 (first :: others) 0 * 10 ^ count = numeral.digits := by
    rw [← ofDigitChars_zeros, ← Nat.ofDigitChars_append, ← split, Nat.ofDigitChars_ten_toDigits]
  rw [same]
  constructor
  · intro c member
    apply Nat.isDigit_of_mem_toDigits (by decide : 0 < 10) (by decide)
    rw [split]
    exact List.mem_append_left _ member
  · rw [Numeral.magnitude, magnitude, ← magnitudeOfDecimal_shift _ count, value]
    congr 1
    simp only
    omega

end Significant

/-! Reading -/

/-- The digits of a text on both sides of its point, with the exponent written behind. -/
def readDigits (text : List Char) (exponent : Int) : Nat :=
  let fraction := (text.dropWhile (· ≠ '.')).drop 1
  magnitudeOfDecimal (ofDigitChars 10 (text.takeWhile (· ≠ '.') ++ fraction) 0)
    (exponent - fraction.length)

def readExponent : List Char → Int
  | '-' :: digits => -(ofDigitChars 10 digits 0 : Int)
  | '+' :: digits => ofDigitChars 10 digits 0
  | _ => 0

def read (text : List Char) : Nat :=
  if text = Layout.plain.infinity.toList then infinityMagnitude
  else readDigits (text.takeWhile (· ≠ 'e')) (readExponent ((text.dropWhile (· ≠ 'e')).drop 1))

section
variable {text whole fraction : List Char}

theorem ne_of_isDigit {mark : Char} (other : mark.isDigit = false) (digits : ∀ c ∈ text, c.isDigit = true) :
    ∀ c ∈ text, decide (c ≠ mark) = true := by
  intro c member
  rw [decide_eq_true_iff]
  rintro rfl
  rw [digits c member] at other
  contradiction

theorem readDigits_point (digits : ∀ c ∈ whole, c.isDigit = true) (exponent : Int) :
    readDigits (whole ++ '.' :: fraction) exponent =
      magnitudeOfDecimal (ofDigitChars 10 (whole ++ fraction) 0) (exponent - fraction.length) := by
  obtain ⟨before, after⟩ :=
    @takeWhile_of_cut (· ≠ '.') whole ('.' :: fraction) (ne_of_isDigit rfl digits) (by simp)
  rw [readDigits, before, after, List.drop_one, List.tail_cons]

theorem readDigits_whole (digits : ∀ c ∈ whole, c.isDigit = true) (exponent : Int) :
    readDigits whole exponent = magnitudeOfDecimal (ofDigitChars 10 whole 0) exponent := by
  obtain ⟨before, after⟩ :=
    @takeWhile_of_cut (· ≠ '.') whole [] (ne_of_isDigit rfl digits) (by simp)
  rw [List.append_nil] at before after
  rw [readDigits, before, after]
  simp

theorem read_point (before : ∀ c ∈ whole, c.isDigit = true) (behind : ∀ c ∈ fraction, c.isDigit = true) :
    read (whole ++ '.' :: fraction) =
      magnitudeOfDecimal (ofDigitChars 10 (whole ++ fraction) 0) (-fraction.length) := by
  have plain : ∀ c ∈ whole ++ '.' :: fraction, decide (c ≠ 'e') = true := by
    rw [List.forall_mem_append, List.forall_mem_cons]
    exact ⟨ne_of_isDigit rfl before, by decide, ne_of_isDigit rfl behind⟩
  have finite : whole ++ '.' :: fraction ≠ Layout.plain.infinity.toList := by
    intro same
    have : '.' ∈ Layout.plain.infinity.toList := same ▸ List.mem_append_right _ List.mem_cons_self
    exact absurd this (by decide)
  obtain ⟨mantissa, exponent⟩ := @takeWhile_of_cut (· ≠ 'e') _ [] plain (by simp)
  rw [List.append_nil] at mantissa exponent
  rw [read, if_neg finite, mantissa, exponent, readDigits_point before]
  congr 1
  exact Int.zero_sub _

theorem readExponent_eq (exponent : Int) :
    readExponent ((if exponent < 0 then '-' else '+') :: exponentDigits exponent.natAbs) = exponent := by
  have value : ofDigitChars 10 (exponentDigits exponent.natAbs) 0 = exponent.natAbs := by
    unfold exponentDigits
    rw [Nat.ofDigitChars_append, ofDigitChars_zeros, Nat.zero_mul, Nat.ofDigitChars_ten_toDigits]
  split
  · rw [readExponent, value]
    omega
  · rw [readExponent, value]
    omega

theorem read_exponent {mantissa : List Char} {exponent : Int}
    (letters : ∀ c ∈ mantissa, c.isDigit = true ∨ c = '.') :
    read (mantissa ++ 'e' :: (if exponent < 0 then '-' else '+') :: exponentDigits exponent.natAbs) =
      readDigits mantissa exponent := by
  have plain : ∀ c ∈ mantissa, decide (c ≠ 'e') = true := by
    intro c member
    rw [decide_eq_true_iff]
    rintro rfl
    exact absurd (letters _ member) (by decide)
  have finite (rest : List Char) : mantissa ++ 'e' :: rest ≠ Layout.plain.infinity.toList := by
    intro same
    have : 'e' ∈ Layout.plain.infinity.toList := same ▸ List.mem_append_right _ List.mem_cons_self
    exact absurd this (by decide)
  obtain ⟨before, after⟩ := @takeWhile_of_cut (· ≠ 'e') mantissa
    ('e' :: (if exponent < 0 then '-' else '+') :: exponentDigits exponent.natAbs) plain (by simp)
  rw [read, if_neg (finite _), before, after, List.drop_one, List.tail_cons, readExponent_eq]

end

section
variable {digits : Significant}

theorem read_below_one (numeric : digits.Numeric) (small : digits.exponent < 0) :
    read (Layout.plain.positional digits) = digits.magnitude := by
  have point := @read_point ['0'] _ (List.forall_mem_singleton.mpr rfl) (numeric.behind_zeros (-digits.exponent - 1).toNat)
  unfold Layout.positional
  rw [if_pos small]
  simp only [List.cons_append, List.nil_append] at point ⊢
  rw [point, Significant.magnitude, Nat.ofDigitChars_cons, Nat.ofDigitChars_append, ofDigitChars_zeros]
  congr 1
  · simp
  · simp only [zeros, List.length_append, List.length_replicate, List.length_cons]
    omega

/-- The point stands inside the digits or behind zeros that fill them up. -/
theorem read_above_one (numeric : digits.Numeric) (large : 0 ≤ digits.exponent) :
    read (Layout.plain.positional digits) = digits.magnitude := by
  obtain ⟨-, others⟩ := List.forall_mem_cons.mp numeric
  obtain ⟨places, exponent⟩ := Int.eq_ofNat_of_zero_le large
  have whole := numeric.before_zeros places (places - digits.others.length)
  unfold Layout.positional
  rw [if_neg (Int.not_lt.mpr large)]
  simp only [exponent, Int.toNat_natCast]
  split
  case h_1 ends =>
    -- The zeros up to the point and the one behind it count against the exponent.
    have short : digits.others.length ≤ places := List.drop_eq_nil_iff.mp ends
    rw [show Layout.plain.wholeEnd.toList = '.' :: zeros 1 from rfl, read_point whole isDigit_of_mem_zeros,
      List.take_of_length_le short, Nat.ofDigitChars_append, Nat.ofDigitChars_append, ofDigitChars_zeros,
      ofDigitChars_zeros, Nat.mul_assoc, ← Nat.pow_add, Significant.magnitude,
      ← magnitudeOfDecimal_shift _ (places - digits.others.length + 1) (digits.exponent - _)]
    congr 1
    simp only [zeros, List.length_replicate]
    omega
  case h_2 inside =>
    -- No zeros are filled in, so the digits are cut at the point.
    have long : places < digits.others.length := by
      rw [← Nat.not_le, ← List.drop_eq_nil_iff]
      exact inside
    have behind : ∀ c ∈ digits.others.drop places, c.isDigit = true :=
      fun c member => others c (List.mem_of_mem_drop member)
    rw [read_point whole behind, Nat.sub_eq_zero_of_le long.le, Significant.magnitude]
    congr 1
    · simp [zeros]
    · rw [List.length_drop]
      omega

theorem read_scientific (numeric : digits.Numeric) :
    read (scientific digits) = digits.magnitude := by
  obtain ⟨first, others⟩ := List.forall_mem_cons.mp numeric
  have head : ∀ c ∈ [digits.first], c.isDigit = true := List.forall_mem_singleton.mpr first
  unfold scientific
  simp only
  rw [read_exponent]
  · cases same : digits.others with
    | nil =>
      rw [List.isEmpty_nil, if_pos rfl, readDigits_whole head, Significant.magnitude, same]
      simp
    | cons second rest =>
      rw [List.isEmpty_cons, if_neg Bool.false_ne_true]
      have point := @readDigits_point [digits.first] (second :: rest) head digits.exponent
      rw [List.singleton_append] at point
      rw [point, Significant.magnitude, same]
      rfl
  · rw [List.forall_mem_cons]
    refine ⟨.inl first, ?_⟩
    split
    · exact List.forall_mem_nil _
    · rw [List.forall_mem_cons]
      exact ⟨.inr rfl, fun c member => .inl (others c member)⟩

theorem read_finite (numeric : digits.Numeric) : read (Layout.plain.finite digits) = digits.magnitude := by
  unfold Layout.finite
  split
  · rcases Int.lt_or_le digits.exponent 0 with small | large
    · exact read_below_one numeric small
    · exact read_above_one numeric large
  · exact read_scientific numeric

end

/-! The letters of numbers -/

structure Numerical (text : List Char) : Prop where
  first : ∃ c ∈ text.head?, c.isDigit = true
  letters : ∀ c ∈ text, c.isDigit = true ∨ c ∈ ['.', 'e', '+', '-']

section
variable {digits : Significant}

theorem numerical_append {whole rest : List Char} (filled : whole ≠ [])
    (numeric : ∀ c ∈ whole, c.isDigit = true)
    (letters : ∀ c ∈ rest, c.isDigit = true ∨ c ∈ ['.', 'e', '+', '-']) : Numerical (whole ++ rest) := by
  obtain ⟨first, others, rfl⟩ := List.exists_cons_of_ne_nil filled
  exact ⟨⟨first, rfl, numeric first List.mem_cons_self⟩,
    List.forall_mem_append.mpr ⟨fun c member => .inl (numeric c member), letters⟩⟩

theorem numerical_positional (numeric : digits.Numeric) : Numerical (Layout.plain.positional digits) := by
  obtain ⟨-, others⟩ := List.forall_mem_cons.mp numeric
  unfold Layout.positional
  split
  · exact @numerical_append ['0'] ('.' :: _) (by simp) (List.forall_mem_singleton.mpr rfl)
      (List.forall_mem_cons.mpr
        ⟨.inr (by decide), fun c member => .inl (numeric.behind_zeros _ c member)⟩)
  · have whole := numeric.before_zeros digits.exponent.toNat
      (digits.exponent.toNat - digits.others.length)
    simp only
    split
    · exact @numerical_append _ ('.' :: zeros 1) (by simp) whole (List.forall_mem_cons.mpr
        ⟨.inr (by decide), fun c member => .inl (isDigit_of_mem_zeros c member)⟩)
    · refine numerical_append (by simp) whole (List.forall_mem_cons.mpr ⟨.inr (by decide), ?_⟩)
      exact fun c member => .inl (others c (List.mem_of_mem_drop member))

theorem numerical_scientific (numeric : digits.Numeric) : Numerical (scientific digits) := by
  obtain ⟨first, others⟩ := List.forall_mem_cons.mp numeric
  have exponent : ∀ c ∈ exponentDigits digits.exponent.natAbs, c.isDigit = true := by
    refine List.forall_mem_append.mpr ⟨isDigit_of_mem_zeros, fun c member => ?_⟩
    exact Nat.isDigit_of_mem_toDigits (by decide) (by decide) member
  refine @numerical_append [digits.first] (_ ++ 'e' :: _) (by simp) (List.forall_mem_singleton.mpr first) ?_
  rw [List.forall_mem_append, List.forall_mem_cons, List.forall_mem_cons]
  refine ⟨?_, .inr (by decide), ?_, fun c member => .inl (exponent c member)⟩
  · split
    · exact List.forall_mem_nil _
    · exact List.forall_mem_cons.mpr ⟨.inr (by decide), fun c member => .inl (others c member)⟩
  · split <;> exact .inr (by decide)

theorem numerical_finite (numeric : digits.Numeric) : Numerical (Layout.plain.finite digits) := by
  unfold Layout.finite
  split
  · exact numerical_positional numeric
  · exact numerical_scientific numeric

end

/-! The texts of magnitudes -/

section
variable {magnitude : Nat}

def Significant.ofMagnitude (magnitude : Nat) : Significant :=
  if magnitude = 0 then ⟨'0', [], 0⟩ else ofNumeral (shortest magnitude)

theorem Significant.ofMagnitude_sound (finite : magnitude < infinityMagnitude) :
    (ofMagnitude magnitude).Numeric ∧ (ofMagnitude magnitude).magnitude = magnitude := by
  unfold ofMagnitude
  split
  case isTrue zero => exact ⟨List.forall_mem_singleton.mpr rfl, zero ▸ rfl⟩
  case isFalse nonzero =>
    have sound := shortest_magnitude (Nat.pos_of_ne_zero nonzero) finite
    have positive : 0 < (shortest magnitude).digits := by
      rw [Nat.pos_iff_ne_zero]
      intro none
      rw [Numeral.magnitude, none, magnitudeOfDecimal_zero] at sound
      exact nonzero sound.symm
    obtain ⟨numeric, value⟩ := ofNumeral_sound positive
    exact ⟨numeric, value.trans sound⟩

theorem Layout.unsigned_of_finite (layout : Layout) (finite : magnitude < infinityMagnitude) :
    layout.unsigned magnitude = layout.finite (Significant.ofMagnitude magnitude) := by
  unfold Layout.unsigned Significant.ofMagnitude
  rw [if_neg finite.ne]
  split <;> rfl

/-- The name of infinity, or digits that stand for the magnitude. -/
theorem unsigned_cases (layout : Layout) (bounded : magnitude ≤ infinityMagnitude) :
    (magnitude = infinityMagnitude ∧ layout.unsigned magnitude = layout.infinity.toList) ∨
      ∃ digits : Significant, digits.Numeric ∧ digits.magnitude = magnitude ∧
        layout.unsigned magnitude = layout.finite digits := by
  rcases Nat.eq_or_lt_of_le bounded with infinite | finite
  · exact .inl ⟨infinite, if_pos infinite⟩
  · obtain ⟨numeric, value⟩ := Significant.ofMagnitude_sound finite
    exact .inr ⟨_, numeric, value, layout.unsigned_of_finite finite⟩

/-- The text of a magnitude is read as that magnitude. -/
theorem read_unsigned (bounded : magnitude ≤ infinityMagnitude) :
    read (Layout.plain.unsigned magnitude) = magnitude := by
  rcases unsigned_cases Layout.plain bounded with ⟨infinite, text⟩ | ⟨digits, numeric, value, text⟩
  · rw [text, read, if_pos rfl, infinite]
  · rw [text, read_finite numeric, value]

theorem unsigned_numerical (bounded : magnitude ≤ infinityMagnitude) :
    Layout.plain.unsigned magnitude = Layout.plain.infinity.toList ∨
      Numerical (Layout.plain.unsigned magnitude) := by
  rcases unsigned_cases Layout.plain bounded with ⟨-, text⟩ | ⟨digits, numeric, -, text⟩
  · exact .inl text
  · exact .inr (text ▸ numerical_finite numeric)

end

end Lox.Number
