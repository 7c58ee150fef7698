import Lox.Eval.Basic
import Lox.Proofs.Grammar.Longest
import Lox.Proofs.Number.Decades
import Lox.Proofs.Number.Display
import Lox.Proofs.Tiling.Written

/-! Printed numbers read as programs.

A number that is printed without an exponent is an expression of the language: a numeral,
behind a minus if the number has a sign. The expression gives the number back.
-/

set_option autoImplicit false

namespace Lox.Number

open Nat (ofDigitChars)
open Syntax

/-- Finite, and either a zero or at least `1e-4` and less than `1e16` away from it. -/
structure InReach (x : Number) : Prop where
  finite : x.magnitude < infinityMagnitude
  range : x.magnitude = 0 ∨
    (10 : ℚ) ^ (-4 : Int) ≤ absolute x.magnitude ∧ absolute x.magnitude < (10 : ℚ) ^ (16 : Int)

section
variable {x : Number} {magnitude : Nat}

theorem exponent_iff (finite : magnitude < infinityMagnitude) :
    (-4 ≤ (Significant.ofMagnitude magnitude).exponent ∧
        (Significant.ofMagnitude magnitude).exponent < 16) ↔
      magnitude = 0 ∨ (10 : ℚ) ^ (-4 : Int) ≤ absolute magnitude ∧
        absolute magnitude < (10 : ℚ) ^ (16 : Int) := by
  rcases Nat.eq_zero_or_pos magnitude with rfl | positive
  · exact iff_of_true (by decide) (.inl rfl)
  · have small := @le_exponent_iff magnitude (-4) positive finite (by decide +kernel)
    have large := @le_exponent_iff magnitude 16 positive finite (by decide +kernel)
    rw [small, ← not_le, large, not_le]
    simp [positive.ne']

theorem inReach_iff (finite : x.magnitude < infinityMagnitude) :
    x.InReach ↔ 'e' ∉ Layout.display.write x := by
  obtain ⟨numeric, -⟩ := Significant.ofMagnitude_sound finite
  have number : x.isNaN = false := by simpa [isNaN] using finite.le
  have sign : 'e' ∈ Layout.display.write x ↔ 'e' ∈ Layout.display.unsigned x.magnitude := by
    cases negative : x.isNegative with
    | true => simp [write_of_isNegative number negative]
    | false => rw [write_of_not_isNegative number negative]
  rw [sign, Layout.display.unsigned_of_finite finite, mem_finite_iff numeric, not_not,
    exponent_iff finite]
  exact ⟨InReach.range, fun range => ⟨finite, range⟩⟩

theorem isDigit_eq (c : Char) : Token.Piece.isDigit c = c.isDigit := by
  rw [Bool.eq_iff_iff, Token.isDigit_iff, Char.isDigit]
  simp [UInt32.le_iff_toNat_le]

theorem exists_lexeme (reach : x.InReach) :
    Token.Lexeme (Layout.display.unsigned x.magnitude) .number
      (some (.number (ofMagnitude x.magnitude))) := by
  obtain ⟨numeric, value⟩ := Significant.ofMagnitude_sound reach.finite
  obtain ⟨whole, fraction, text, filled, before, behind, read⟩ := exists_numeral numeric
  have number : ofDigits whole fraction = ofMagnitude x.magnitude := by
    rw [ofDigits, ofDecimal, read, value]
  rw [Layout.display.unsigned_of_finite reach.finite, Layout.finite,
    if_pos ((exponent_iff reach.finite).mpr reach.range), text, ← number]
  exact .number filled (fun c member => (isDigit_eq c).trans (before c member))
    fun c member => (isDigit_eq c).trans (behind c member)

end

/-! Scanning, parsing and evaluating -/

section
variable {text : List Char} {kind : Token.Kind} {literal : Option Literal}

theorem ofText_lexeme (lexeme : Token.Lexeme text kind literal) :
    (Token.Scan.ofText text).tokens = [⟨kind, String.ofList text, literal, 1⟩] ∧
      (Token.Scan.ofText text).errors = [] := by
  have scanned := @Token.Scan.ofTextFrom_lexeme text [] kind literal lexeme nofun 1
  rw [List.append_nil] at scanned
  rw [Token.Scan.ofText, scanned]
  exact ⟨rfl, rfl⟩

theorem ofText_minus (text : List Char) :
    (Token.Scan.ofText ('-' :: text)).tokens =
        ⟨.minus, String.ofList ['-'], none, 1⟩ :: (Token.Scan.ofText text).tokens ∧
      (Token.Scan.ofText ('-' :: text)).errors = (Token.Scan.ofText text).errors :=
  ⟨rfl, rfl⟩

end

theorem phrase_number {token : Token} {value : Literal} (number : token.kind = .number)
    (same : token.literal = some value) : Grammar.Phrase .unary [token] (.literal value) := by
  refine .tighter rfl (.tighter rfl (.constant ?_))
  unfold Grammar.constant?
  rw [number, same]
  rfl

theorem ofTokens_unary {tokens : List Token} {expr : Expr} (phrase : Grammar.Phrase .unary tokens expr) :
    Phrase.ofTokens tokens = ⟨some expr, [], []⟩ := by
  have whole : Grammar.Phrase .assignment tokens expr :=
    .tighter rfl <| .tighter rfl <| .tighter rfl <| .tighter rfl <| .tighter rfl <| .tighter rfl <|
      .tighter rfl phrase
  have reads := StmtParser.expression_reads whole (Nat.lt_succ_self tokens.length) Syntax.stops_nil
  rw [List.append_nil] at reads
  exact Phrase.ofTokens_eq_iff_reads.mpr reads

theorem reads_back {x : Number} (reach : x.InReach) :
    let scan := Token.Scan.ofText (Layout.display.write x)
    scan.errors = [] ∧
    scan.tokens.map (·.kind) = (if x.isNegative then [.minus, .number] else [.number]) ∧
    ∃ expr, Phrase.ofTokens scan.tokens = ⟨some expr, [], []⟩ ∧
      ∀ (rules : Rules) (machine : Machine) (fuel : Nat),
        evaluate rules (fuel + 2) expr machine = .done (.number x) machine := by
  have number : x.isNaN = false := by simpa [isNaN] using reach.finite.le
  obtain ⟨tokens, clean⟩ := ofText_lexeme (exists_lexeme reach)
  cases negative : x.isNegative with
  | false =>
    rw [write_of_not_isNegative number negative]
    dsimp only
    rw [tokens, clean]
    refine ⟨rfl, rfl, _, ofTokens_unary (phrase_number rfl rfl), fun rules machine fuel => ?_⟩
    rw [ofMagnitude_magnitude number negative]
    rfl
  -- A sign is a token of its own, in front of the numeral of the magnitude.
  | true =>
    obtain ⟨more, also⟩ := ofText_minus (Layout.display.unsigned x.magnitude)
    rw [write_of_isNegative number negative]
    dsimp only
    rw [more, also, tokens, clean]
    refine ⟨rfl, rfl, _, ofTokens_unary (.unary (.inr rfl) (phrase_number rfl rfl)),
      fun rules machine fuel => ?_⟩
    have negated : (ofMagnitude x.magnitude).negate = x := negate_ofMagnitude number negative
    conv => rhs; rw [← negated]
    rfl

/-- Two numbers print the same text exactly if they are equal. The finite numbers from `1e-4`
up to `1e16`, of either sign, and the zeros are those that print no exponent. Scanning such a
text gives, without errors, a number token behind the minus of those with a sign, and these
tokens are an expression, which evaluates to an equal number. -/
theorem display_faithful :
    (∀ a b : Number, (ValueIn.number a : Value).display = (ValueIn.number b : Value).display ↔
      (ValueIn.number a : Value).equal (.number b) = true) ∧
    (∀ x : Number, x.magnitude < infinityMagnitude →
      (x.InReach ↔ 'e' ∉ (ValueIn.number x : Value).display.toList)) ∧
    ∀ x : Number, x.InReach →
      let scan := Token.Scan.ofText (ValueIn.number x : Value).display.toList
      scan.errors = [] ∧
      scan.tokens.map (·.kind) = (if x.isNegative then [.minus, .number] else [.number]) ∧
      ∃ expr, Phrase.ofTokens scan.tokens = ⟨some expr, [], []⟩ ∧
        ∀ (rules : Rules) (machine : Machine) (fuel : Nat), 2 ≤ fuel →
          ∃ value, evaluate rules fuel expr machine = .done value machine ∧
            value.equal (.number x) = true := by
  have text (x : Number) : (ValueIn.number x : Value).display.toList = Layout.display.write x :=
    String.toList_ofList
  refine ⟨fun a b => ?_, fun x finite => ?_, fun x reach => ?_⟩
  -- Texts are compared as lists of characters, as the layout writes them.
  · rw [← String.toList_inj, text, text]
    simp only [ValueIn.number, ValueIn.equal, decide_eq_true_eq, Literal.number.injEq]
    exact ⟨write_inj, congrArg _⟩
  · rw [text]
    exact inReach_iff finite
  · simp only
    rw [text]
    obtain ⟨clean, kinds, expr, parsed, evaluates⟩ := reads_back reach
    refine ⟨clean, kinds, expr, parsed, fun rules machine fuel enough => ?_⟩
    -- One step for the phrase and one for the number inside its sign.
    obtain ⟨fuel, rfl⟩ : ∃ less, fuel = less + 2 := ⟨fuel - 2, by omega⟩
    exact ⟨_, evaluates rules machine fuel, by simp [ValueIn.number, ValueIn.equal]⟩

/-- The number nearest to a tenth, with a sign. -/
def minusTenth : Number := (ofDecimal 1 (-1)).negate

/-- It is in reach, and not printed like the number without the sign. -/
theorem display_faithful_minusTenth :
    minusTenth.InReach ∧ (ValueIn.number minusTenth : Value).display = "-0.1" ∧
      (ValueIn.number minusTenth : Value).display ≠ (ValueIn.number (ofDecimal 1 (-1)) : Value).display ∧
      (Token.Scan.ofText "-0.1".toList).tokens.map (·.kind) = [.minus, .number] ∧
      ∃ expr, Phrase.ofTokens (Token.Scan.ofText "-0.1".toList).tokens = ⟨some expr, [], []⟩ ∧
        ∃ value, evaluate ⟨none, .lexical, fun _ => 0⟩ 2 expr Machine.initial = .done value .initial ∧
          value.equal (.number minusTenth) = true := by
  have reach : minusTenth.InReach :=
    ⟨by decide +kernel, .inr ⟨by decide +kernel, by decide +kernel⟩⟩
  have text : (ValueIn.number minusTenth : Value).display = "-0.1" := by decide +kernel
  have negative : minusTenth.isNegative = true := by decide +kernel
  obtain ⟨same, -, back⟩ := display_faithful
  obtain ⟨-, kinds, expr, parsed, evaluates⟩ := back minusTenth reach
  rw [negative, text] at kinds
  rw [text] at parsed
  refine ⟨reach, text, fun alike => ?_, kinds, expr, parsed, evaluates _ _ 2 le_rfl⟩
  exact absurd ((same _ _).mp alike) (by decide +kernel)

end Lox.Number
