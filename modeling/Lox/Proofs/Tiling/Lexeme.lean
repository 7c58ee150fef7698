import Lox.Token.Piece
import Mathlib.Data.List.TakeWhile

/-! The lexemes of the language.

A lexeme is an operator, a number, a word or a closed string; its text alone tells its
kind and its value, and its first character tells which of the four it is. Where two
lexemes begin at the same place, the longer one counts.
-/

set_option autoImplicit false

namespace Lox.Token

open Piece (isDigit isLetter isWordPart)

def operators : List (List Char × Kind) := [
  (['('], .leftParen), ([')'], .rightParen), (['{'], .leftBrace), (['}'], .rightBrace),
  ([','], .comma), (['.'], .dot), (['-'], .minus), (['+'], .plus), ([';'], .semicolon),
  (['/'], .slash), (['*'], .star),
  (['!'], .bang), (['!', '='], .bangEqual), (['='], .equal), (['=', '='], .equalEqual),
  (['>'], .greater), (['>', '='], .greaterEqual), (['<'], .less), (['<', '='], .lessEqual)]

def numeral (whole fraction : List Char) : List Char :=
  whole ++ if fraction.isEmpty then [] else '.' :: fraction

/-- The texts of the language, each with its kind and its value. -/
inductive Lexeme : List Char → Kind → Option Literal → Prop where
  | operator {text : List Char} {kind : Kind} : (text, kind) ∈ operators → Lexeme text kind none
  | number {whole fraction : List Char} : whole ≠ [] → (∀ c ∈ whole, isDigit c = true) →
      (∀ c ∈ fraction, isDigit c = true) →
      Lexeme (numeral whole fraction) .number (some (.number (Number.ofDigits whole fraction)))
  | word {first : Char} {others : List Char} : isLetter first = true →
      (∀ c ∈ others, isWordPart c = true) →
      Lexeme (first :: others) (Kind.ofWord (String.ofList (first :: others))) none
  | string {body : List Char} : '"' ∉ body →
      Lexeme ('"' :: (body ++ ['"'])) .string (some (.string (String.ofList body)))

/-- The longest lexeme at the head of a text. -/
structure Longest (text chosen : List Char) (kind : Kind) (literal : Option Literal) : Prop where
  lexeme : Lexeme chosen kind literal
  begins : chosen <+: text
  longest : ∀ {other : List Char} {otherKind : Kind} {otherLiteral : Option Literal},
    Lexeme other otherKind otherLiteral → other <+: text → other.length ≤ chosen.length

section
variable {c : Char} {text rest others : List Char} {kind : Kind} {literal : Option Literal}

theorem isDigit_iff : isDigit c = true ↔ 48 ≤ c.toNat ∧ c.toNat ≤ 57 := by
  simp only [isDigit, Bool.and_eq_true, decide_eq_true_eq, Char.le_def, UInt32.le_iff_toNat_le]
  rfl

theorem le_of_isLetter (letter : isLetter c = true) : 65 ≤ c.toNat := by
  simp only [isLetter, Bool.or_eq_true, Bool.and_eq_true, decide_eq_true_eq, beq_iff_eq, Char.le_def,
    UInt32.le_iff_toNat_le] at letter
  rcases letter with (⟨low, -⟩ | ⟨low, -⟩) | rfl
  · exact Nat.le_trans (by decide) low
  · exact low
  · decide

theorem not_isLetter_of_isDigit (digit : isDigit c = true) : isLetter c = false := by
  rw [isDigit_iff] at digit
  apply Bool.eq_false_iff.mpr
  intro letter
  have := le_of_isLetter letter
  omega

theorem operators_head (listed : (c :: others, kind) ∈ operators) :
    isDigit c = false ∧ isLetter c = false ∧ c ≠ '"' := by
  have heads : ∀ entry ∈ operators,
      entry.1.head?.all (fun c => !isDigit c && !isLetter c && c != '"') = true := by
    decide
  simpa [and_assoc] using heads _ listed

theorem not_mem_iff {text : List Char} : c ∉ text ↔ ∀ d ∈ text, decide (d ≠ c) = true := by
  simp only [decide_eq_true_eq]
  exact ⟨fun absent d member same => absent (same ▸ member), fun all member => all c member rfl⟩

theorem takeWhile_of_cut {p : Char → Bool} {head tail : List Char} (all : ∀ c ∈ head, p c = true)
    (cut : ∀ c ∈ tail.head?, p c = false) :
    (head ++ tail).takeWhile p = head ∧ (head ++ tail).dropWhile p = tail := by
  rw [List.takeWhile_append_of_pos all, List.dropWhile_append_of_pos all]
  cases tail with
  | nil => simp
  | cons c tail => simp [cut c rfl]

theorem cut_numeral {whole fraction : List Char} (digits : ∀ c ∈ whole, isDigit c = true)
    (ends : fraction = [] → rest = []) :
    (numeral whole fraction ++ rest).takeWhile isDigit = whole ∧
      (numeral whole fraction ++ rest).dropWhile isDigit =
        (if fraction.isEmpty then [] else '.' :: fraction) ++ rest := by
  unfold numeral
  rw [List.append_assoc]
  apply takeWhile_of_cut digits
  cases fraction with
  | nil => simp [ends rfl]
  | cons first others => simp [isDigit]

theorem numeral_inj {whole fraction twin others : List Char}
    (digits : ∀ c ∈ whole, isDigit c = true) (twins : ∀ c ∈ twin, isDigit c = true)
    (same : numeral whole fraction = numeral twin others) : whole = twin ∧ fraction = others := by
  obtain ⟨first, behind⟩ := @cut_numeral [] whole fraction digits fun _ => rfl
  obtain ⟨second, after⟩ := @cut_numeral [] twin others twins fun _ => rfl
  rw [same] at first behind
  refine ⟨first.symm.trans second, ?_⟩
  have points := behind.symm.trans after
  cases fraction <;> cases others <;> simp_all

namespace Lexeme

theorem of_digit (digit : isDigit c = true) (lexeme : Lexeme (c :: others) kind literal) :
    ∃ whole fraction, c :: others = numeral whole fraction ∧
      (∀ d ∈ whole, isDigit d = true) ∧ (∀ d ∈ fraction, isDigit d = true) ∧
      kind = .number ∧ literal = some (.number (Number.ofDigits whole fraction)) := by
  generalize begins : c :: others = text at lexeme
  cases lexeme with
  | operator listed =>
    subst begins
    simp [(operators_head listed).1] at digit
  | number some whole fraction => exact ⟨_, _, rfl, whole, fraction, rfl, rfl⟩
  | word letter =>
    cases begins
    simp [not_isLetter_of_isDigit digit] at letter
  | string =>
    cases begins
    cases digit

theorem of_letter (letter : isLetter c = true) (lexeme : Lexeme (c :: others) kind literal) :
    (∀ d ∈ others, isWordPart d = true) ∧
      kind = Kind.ofWord (String.ofList (c :: others)) ∧ literal = none := by
  generalize begins : c :: others = text at lexeme
  cases lexeme with
  | operator listed =>
    subst begins
    simp [(operators_head listed).2.1] at letter
  | @number whole _ some digits =>
    cases whole with
    | nil => exact absurd rfl some
    | cons first whole =>
      cases begins
      simp [not_isLetter_of_isDigit (digits c List.mem_cons_self)] at letter
  | word _ parts =>
    cases begins
    exact ⟨parts, rfl, rfl⟩
  | string =>
    cases begins
    cases letter

theorem of_quote (lexeme : Lexeme ('"' :: others) kind literal) :
    ∃ body, '"' ∉ body ∧ others = body ++ ['"'] ∧ kind = .string ∧
      literal = some (.string (String.ofList body)) := by
  generalize begins : '"' :: others = text at lexeme
  cases lexeme with
  | operator listed =>
    subst begins
    exact absurd rfl (operators_head listed).2.2
  | @number whole _ some digits =>
    cases whole with
    | nil => exact absurd rfl some
    | cons first whole =>
      cases begins
      cases digits '"' List.mem_cons_self
  | word letter =>
    cases begins
    cases letter
  | string closed =>
    cases begins
    exact ⟨_, closed, rfl, rfl, rfl⟩

theorem of_other (digit : isDigit c = false) (letter : isLetter c = false) (quote : c ≠ '"')
    (lexeme : Lexeme (c :: others) kind literal) :
    (c :: others, kind) ∈ operators ∧ literal = none := by
  generalize begins : c :: others = text at lexeme
  cases lexeme with
  | operator listed => exact ⟨begins ▸ listed, rfl⟩
  | @number whole _ some digits =>
    cases whole with
    | nil => exact absurd rfl some
    | cons first whole =>
      cases begins
      simp [digits c List.mem_cons_self] at digit
  | word isLetter =>
    cases begins
    simp [isLetter] at letter
  | string =>
    cases begins
    exact absurd rfl quote

theorem ne_nil (lexeme : Lexeme text kind literal) : text ≠ [] := by
  cases lexeme with
  | operator listed =>
    have lists : ∀ entry ∈ operators, entry.1 ≠ [] := by decide
    exact lists _ listed
  | number some => simp [numeral, some]
  | word => exact List.cons_ne_nil _ _
  | string => exact List.cons_ne_nil _ _

theorem unique {other : Kind} {value : Option Literal} (lexeme : Lexeme text kind literal)
    (second : Lexeme text other value) : kind = other ∧ literal = value := by
  cases lexeme with
  -- An operator has no other lexeme with its head, and the list has each text once.
  | @operator text kind listed =>
    cases text with
    | nil => exact absurd rfl second.ne_nil
    | cons c others =>
      obtain ⟨digit, letter, quote⟩ := operators_head listed
      obtain ⟨also, rfl⟩ := second.of_other digit letter quote
      have kinds : ∀ entry ∈ operators, ∀ twin ∈ operators, entry.1 = twin.1 → entry.2 = twin.2 := by
        decide
      exact ⟨kinds _ listed _ also rfl, rfl⟩
  | @number whole fraction some digits =>
    cases whole with
    | nil => exact absurd rfl some
    | cons first whole =>
      obtain ⟨twin, others, same, twins, _, rfl, rfl⟩ :=
        second.of_digit (digits first List.mem_cons_self)
      obtain ⟨rfl, rfl⟩ := numeral_inj digits twins same
      exact ⟨rfl, rfl⟩
  | word letter =>
    obtain ⟨_, rfl, rfl⟩ := second.of_letter letter
    exact ⟨rfl, rfl⟩
  | string =>
    obtain ⟨body, _, same, rfl, rfl⟩ := second.of_quote
    rw [List.append_cancel_right same]
    exact ⟨rfl, rfl⟩

end Lexeme

theorem length_le_takeWhile {p : Char → Bool} {head : List Char} (all : ∀ c ∈ head, p c = true)
    (begins : head <+: text) : head.length ≤ (text.takeWhile p).length := by
  obtain ⟨rest, rfl⟩ := begins
  rw [List.takeWhile_append_of_pos all, List.length_append]
  exact Nat.le_add_right _ _

namespace Longest

theorem of_cons {chosen : List Char} (lexeme : Lexeme chosen kind literal)
    (begins : chosen <+: c :: rest)
    (longest : ∀ {others : List Char} {otherKind : Kind} {otherLiteral : Option Literal},
      Lexeme (c :: others) otherKind otherLiteral → others <+: rest →
        others.length < chosen.length) : Longest (c :: rest) chosen kind literal := by
  refine ⟨lexeme, begins, ?_⟩
  intro other otherKind otherLiteral second starts
  cases other with
  | nil => exact absurd rfl second.ne_nil
  | cons d others =>
    obtain ⟨rfl, starting⟩ := List.cons_prefix_cons.mp starts
    exact longest second starting

theorem number (digit : isDigit c = true) :
    Longest (c :: rest)
      (numeral ((c :: rest).takeWhile isDigit) (Piece.fraction ((c :: rest).dropWhile isDigit)))
      .number (some (.number (Number.ofDigits ((c :: rest).takeWhile isDigit)
        (Piece.fraction ((c :: rest).dropWhile isDigit))))) := by
  -- What the scanner takes behind the point is digits, and begins what is left.
  have fractionDigits : ∀ text, ∀ d ∈ Piece.fraction text, isDigit d = true := by
    intro text d member
    unfold Piece.fraction at member
    split at member
    · exact List.mem_takeWhile_imp member
    · cases member
  have fractionBegins : ∀ text,
      (if (Piece.fraction text).isEmpty then [] else '.' :: Piece.fraction text) <+: text := by
    intro text
    split
    · exact List.nil_prefix
    next some =>
      unfold Piece.fraction at some ⊢
      split at some
      · exact List.cons_prefix_cons.mpr ⟨rfl, List.takeWhile_prefix _⟩
      · exact absurd rfl some
  apply of_cons
  · refine .number ?_ (fun d => List.mem_takeWhile_imp) (fractionDigits _)
    simp [digit]
  · have split := List.takeWhile_append_dropWhile (p := isDigit) (l := c :: rest)
    conv => rhs; rw [← split]
    exact (List.prefix_append_right_inj _).mpr (fractionBegins _)
  · intro others otherKind otherLiteral lexeme begins
    obtain ⟨whole, fraction, same, digits, more, -, -⟩ := lexeme.of_digit digit
    have starts : numeral whole fraction <+: c :: rest :=
      same ▸ List.cons_prefix_cons.mpr ⟨rfl, begins⟩
    have length : others.length + 1 = (numeral whole fraction).length := by rw [← same]; rfl
    rw [Nat.lt_iff_add_one_le, length]
    -- Any other numeral here has its digits inside the run that was taken.
    cases fraction with
    | nil =>
      have plain : numeral whole [] = whole := List.append_nil whole
      rw [plain] at starts ⊢
      unfold numeral
      rw [List.length_append]
      exact Nat.le_add_right_of_le (length_le_takeWhile digits starts)
    | cons first fraction =>
      obtain ⟨behind, split⟩ := starts
      obtain ⟨taken, left⟩ := @cut_numeral behind whole (first :: fraction) digits nofun
      rw [split] at taken left
      have point : Piece.fraction ((c :: rest).dropWhile isDigit) =
          first :: fraction ++ behind.takeWhile isDigit := by
        rw [left]
        exact List.takeWhile_append_of_pos more
      rw [taken, point]
      simp [numeral]

theorem word (letter : isLetter c = true) :
    Longest (c :: rest) ((c :: rest).takeWhile isWordPart)
      (Kind.ofWord (String.ofList ((c :: rest).takeWhile isWordPart))) none := by
  have part : isWordPart c = true := by simp [isWordPart, letter]
  rw [List.takeWhile_cons_of_pos part]
  apply of_cons
  · exact .word letter fun d => List.mem_takeWhile_imp
  · exact List.cons_prefix_cons.mpr ⟨rfl, List.takeWhile_prefix _⟩
  · intro others otherKind otherLiteral lexeme begins
    exact Nat.lt_succ_of_le (length_le_takeWhile (lexeme.of_letter letter).1 begins)

theorem string {body : List Char} (closed : '"' ∉ body) :
    Longest ('"' :: (body ++ '"' :: rest)) ('"' :: (body ++ ['"'])) .string
      (some (.string (String.ofList body))) := by
  apply of_cons
  · exact .string closed
  · simp
  · intro others otherKind otherLiteral lexeme begins
    obtain ⟨other, opened, rfl, -, -⟩ := lexeme.of_quote
    have le := length_le_takeWhile (not_mem_iff.mp opened) ((List.prefix_append _ _).trans begins)
    rw [List.takeWhile_append_of_pos (not_mem_iff.mp closed)] at le
    simp at le ⊢
    omega

theorem operator (listed : (c :: others, kind) ∈ operators) (begins : others <+: rest)
    (longest : ∀ entry ∈ operators, ∀ more, entry.1 = c :: more → more <+: rest →
      more.length ≤ others.length) : Longest (c :: rest) (c :: others) kind none := by
  obtain ⟨digit, letter, quote⟩ := operators_head listed
  apply of_cons
  · exact .operator listed
  · exact List.cons_prefix_cons.mpr ⟨rfl, begins⟩
  · intro more otherKind otherLiteral lexeme starts
    exact Nat.lt_succ_of_le (longest _ (lexeme.of_other digit letter quote).1 more rfl starts)

end Longest

end

end Lox.Token
