import Lox.Proofs.Forms.Sketch
import Lox.Proofs.Grammar.Basic
import Lox.Proofs.Number.Bits
import Lox.Proofs.Number.Texts

/-! Tokens and constants from their texts.

A word or an operator gives its kind back, and the form of a constant gives the
constant back.
-/

set_option autoImplicit false

namespace Lox

namespace Token

open Piece (isDigit isLetter isWordPart)
open Sketch (isPlain)

def Spelled (token : Token) : Prop := Lexeme token.lexeme.toList token.kind token.literal

def ofSpelling (text : List Char) : Token where
  kind := (operators.lookup text).getD (Kind.ofWord (String.ofList text))
  lexeme := String.ofList text
  literal := none
  line := 0

section
variable {c : Char} {text : List Char} {kind : Kind} {literal : Option Literal}

theorem Kind.ofWord_cases (word : String) :
    Kind.ofWord word = .identifier ∨ (word, Kind.ofWord word) ∈ Kind.reserved := by
  unfold Kind.ofWord
  cases found : Kind.reserved.lookup word with
  | none => exact .inl rfl
  | some kind =>
    obtain ⟨before, after, split, -⟩ := List.lookup_eq_some_iff.mp found
    right
    rw [split]
    simp

theorem isPlain_of_isWordPart : isWordPart c = true → isPlain c = true :=
  Sketch.isPlain_of_class (by decide)

theorem Lexeme.isPlain (lexeme : Lexeme text kind literal)
    (outside : kind ∉ [Kind.number, .string, .leftParen, .rightParen]) : ∀ c ∈ text, isPlain c = true := by
  cases lexeme with
  | operator listed =>
    have plain : ∀ entry ∈ operators,
        entry.2 ∈ [Kind.number, .string, .leftParen, .rightParen] ∨ entry.1.all Sketch.isPlain = true := by
      decide
    exact List.all_eq_true.mp ((plain _ listed).resolve_left outside)
  | number => exact absurd (by decide) outside
  | word letter parts =>
    refine List.forall_mem_cons.mpr ⟨isPlain_of_isWordPart ?_, fun c member => isPlain_of_isWordPart (parts c member)⟩
    rw [isWordPart, letter, Bool.true_or]
  | string => exact absurd (by decide) outside

theorem Lexeme.ofSpelling (lexeme : Lexeme text kind literal) (outside : kind ∉ [Kind.number, .string]) :
    ofSpelling text = ⟨kind, String.ofList text, none, 0⟩ ∧ literal = none := by
  cases lexeme with
  | operator listed =>
    have first : ∀ entry ∈ operators, operators.lookup entry.1 = some entry.2 := by decide
    refine ⟨?_, rfl⟩
    rw [Token.ofSpelling, first _ listed]
    rfl
  | number => exact absurd (by decide) outside
  | @word first others letter parts =>
    have absent : operators.lookup (first :: others) = none := by
      rw [List.lookup_eq_none_iff]
      rintro ⟨other, kind⟩ listed
      rw [bne_iff_ne]
      rintro rfl
      exact absurd letter (Bool.eq_false_iff.mp (operators_head listed).2.1)
    refine ⟨?_, rfl⟩
    rw [Token.ofSpelling, absent]
    rfl
  | string => exact absurd (by decide) outside

theorem Lexeme.of_rightParen (lexeme : Lexeme text .rightParen literal) : text = [')'] := by
  generalize same : Kind.rightParen = kind at lexeme
  cases lexeme with
  | operator listed =>
    have only : ∀ entry ∈ operators, Kind.rightParen = entry.2 → entry.1 = [')'] := by decide
    exact only _ listed same
  | number => cases same
  | word =>
    have others : ∀ entry ∈ Kind.reserved, Kind.rightParen ≠ entry.2 := by decide
    rcases Kind.ofWord_cases _ with name | word
    · exact absurd (same.trans name) (by decide)
    · exact absurd same (others _ word)
  | string => cases same

theorem Lexeme.of_returnWord (lexeme : Lexeme text .returnWord literal) : text = "return".toList := by
  generalize same : Kind.returnWord = kind at lexeme
  cases lexeme with
  | operator listed =>
    have others : ∀ entry ∈ operators, Kind.returnWord ≠ entry.2 := by decide
    exact absurd same (others _ listed)
  | number => cases same
  | word =>
    have only : ∀ entry ∈ Kind.reserved, Kind.returnWord = entry.2 → entry.1 = "return" := by decide
    rcases Kind.ofWord_cases _ with name | word
    · exact absurd (same.trans name) (by decide)
    · rw [← only _ word same, String.toList_ofList]
  | string => cases same

end

end Token

/-! Constants -/

namespace Literal

open Sketch (Whole isPlain)

/-- A constant with a spelling: a string without quotes inside, a number without a sign. -/
def Spelled : Literal → Prop
  | .nil | .bool _ => True
  | .number value => ∃ magnitude ≤ Number.infinityMagnitude, value = Number.ofMagnitude magnitude
  | .string value => '"' ∉ value.toList

def ofForm (text : List Char) : Literal :=
  if text = "nil".toList then .nil
  else if text = "true".toList then .bool true
  else if text = "false".toList then .bool false
  else if text.head? = some '"' then .string (String.ofList text.tail.dropLast)
  else .number (Number.ofMagnitude (Number.read text))

theorem whole_unsigned {magnitude : Nat} (bounded : magnitude ≤ Number.infinityMagnitude) :
    Whole (Number.Layout.plain.unsigned magnitude) := by
  rcases Number.unsigned_numerical bounded with text | ⟨⟨first, begins, -⟩, letters⟩
  · rw [text]
    exact .word (List.all_eq_true.mp (by decide))
  · obtain ⟨others, split⟩ := List.head?_eq_some_iff.mp begins
    rw [split] at letters ⊢
    refine .word fun c member => ?_
    rcases letters c member with digit | mark
    · exact Sketch.isPlain_of_class (by decide) digit
    · exact List.all_eq_true.mp (by decide : ['.', 'e', '+', '-'].all isPlain = true) c mark

theorem ofForm_unsigned {magnitude : Nat} (bounded : magnitude ≤ Number.infinityMagnitude) :
    ofForm (Number.Layout.plain.unsigned magnitude) = .number (Number.ofMagnitude magnitude) := by
  have back := Number.read_unsigned bounded
  rcases Number.unsigned_numerical bounded with text | ⟨⟨first, begins, digit⟩, -⟩
  · rw [text] at back ⊢
    rw [← back]
    rfl
  · -- A digit begins neither a word nor a string.
    have other (word : List Char) (letter : word.head?.all (!·.isDigit) = true) :
        Number.Layout.plain.unsigned magnitude ≠ word := by
      intro same
      rw [← same, begins] at letter
      simp [digit] at letter
    have unquoted : (Number.Layout.plain.unsigned magnitude).head? ≠ some '"' := by
      intro quote
      rw [Option.mem_def, quote, Option.some.injEq] at begins
      exact absurd digit (begins ▸ by decide)
    rw [ofForm, if_neg (other _ (by decide)), if_neg (other _ (by decide)), if_neg (other _ (by decide)),
      if_neg unquoted, back]

section
variable {value : Literal}

theorem form_number {magnitude : Nat} (bounded : magnitude ≤ Number.infinityMagnitude) :
    form (.number (Number.ofMagnitude magnitude)) = Number.Layout.plain.unsigned magnitude :=
  Number.Layout.plain.write_ofMagnitude bounded

theorem whole_form (spelled : value.Spelled) : Whole value.form := by
  cases value with
  | nil => exact .word (List.all_eq_true.mp (by decide))
  | bool value => cases value <;> exact .word (List.all_eq_true.mp (by decide))
  | number =>
    obtain ⟨magnitude, bounded, rfl⟩ := spelled
    rw [form_number bounded]
    exact whole_unsigned bounded
  | string => exact .quoted spelled

theorem ofForm_form (spelled : value.Spelled) : ofForm value.form = value := by
  cases value with
  | nil => rfl
  | bool value => cases value <;> rfl
  | number =>
    obtain ⟨magnitude, bounded, rfl⟩ := spelled
    rw [form_number bounded, ofForm_unsigned bounded]
  | string value =>
    have inside : ('"' :: value.toList ++ ['"']).tail.dropLast = value.toList := by simp
    have quote : ('"' :: value.toList ++ ['"']).head? = some '"' := rfl
    rw [form, ofForm, if_neg ?_, if_neg ?_, if_neg ?_, if_pos quote, inside, String.ofList_toList]
    all_goals exact fun same => absurd (List.head_eq_of_cons_eq same) (by decide)

theorem spelled_of_lexeme {text : List Char} {kind : Token.Kind} {literal : Option Literal}
    (lexeme : Token.Lexeme text kind literal) : ∀ value ∈ literal, value.Spelled := by
  rintro value ⟨rfl⟩
  cases lexeme with
  | number => exact ⟨_, Number.magnitudeOfDecimal_le, rfl⟩
  | @string body closed => rwa [Spelled, String.toList_ofList]

theorem spelled_of_constant {token : Token} (spelled : token.Spelled)
    (constant : Grammar.constant? token = some value) : value.Spelled := by
  have written : (token.literal.getD .nil).Spelled := by
    cases same : token.literal with
    | none => trivial
    | some literal => exact spelled_of_lexeme spelled literal same
  unfold Grammar.constant? at constant
  split at constant
  all_goals cases constant
  all_goals first | exact written | trivial

end

end Literal

end Lox
