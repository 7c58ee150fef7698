import Lox.Proofs.Tiling.Lexeme

/-! The tiles of a text.

A text is cut into lexemes, blanks, comments, characters that begin no lexeme, and maybe
one string at the end that is never closed. There is one way to do it, and the scanner
takes it.
-/

set_option autoImplicit false

namespace Lox.Token

open Piece (isDigit isLetter isWordPart)

def blanks : List Char := [' ', '\r', '\t', '\n']

inductive Tile where
  | token (lexeme : List Char) (kind : Kind) (literal : Option Literal)
  | blank (c : Char)
  | comment (body : List Char)
  | stray (c : Char)
  | unclosed (body : List Char)

namespace Tile

def text : Tile → List Char
  | .token lexeme _ _ => lexeme
  | .blank c | .stray c => [c]
  | .comment body => '/' :: '/' :: body
  | .unclosed body => '"' :: body

/-- A tile stands before the rest of a text. A comment ends before its line does, and what
begins a comment is no lexeme. -/
def Fits (rest : List Char) : Tile → Prop
  | .token lexeme kind literal =>
    Longest (lexeme ++ rest) lexeme kind literal ∧ ¬ ['/', '/'] <+: lexeme ++ rest
  | .blank c => c ∈ blanks
  | .comment body => '\n' ∉ body ∧ ∀ c ∈ rest.head?, c = '\n'
  | .stray c => c ∉ blanks ∧ ∀ others kind literal, ¬ Lexeme (c :: others) kind literal
  | .unclosed body => '"' ∉ body ∧ rest = []

def piece : Tile → Piece
  | .token lexeme kind literal => .token kind literal lexeme.length
  | .blank _ => .gap 1
  | .comment body => .gap (2 + body.length)
  | .stray _ => .unexpected
  | .unclosed body => .unclosed (1 + body.length)

end Tile

/-- The tiles of a text, in order. -/
inductive Tiles : List Char → List Tile → Prop where
  | nil : Tiles [] []
  | cons {tile : Tile} {rest : List Char} {tiles : List Tile} : tile.Fits rest → Tiles rest tiles →
      Tiles (tile.text ++ rest) (tile :: tiles)

section
variable {c : Char} {rest others text : List Char} {kind : Kind} {literal : Option Literal}
  {tile other : Tile}

theorem Tile.text_ne_nil (fits : tile.Fits rest) : tile.text ≠ [] := by
  cases tile with
  | token lexeme kind literal => exact fits.1.lexeme.ne_nil
  | _ => exact List.cons_ne_nil _ _

theorem Tile.length_piece (fits : tile.Fits rest) : tile.piece.length = tile.text.length := by
  cases tile <;> simp [piece, Piece.length, Tile.text] <;> omega

theorem mem_blanks : c ∈ blanks ↔ c = ' ' ∨ c = '\r' ∨ c = '\t' ∨ c = '\n' := by
  simp [blanks]

/-! ### There is one tile at the head of a text -/

theorem Lexeme.not_blank (lexeme : Lexeme (c :: others) kind literal) : c ∉ blanks := by
  intro blank
  have plain : isDigit c = false ∧ isLetter c = false ∧ c ≠ '"' := by
    rcases mem_blanks.mp blank with rfl | rfl | rfl | rfl <;> decide
  have heads : ∀ entry ∈ operators, entry.1.head?.all (fun c => decide (c ∉ blanks)) = true := by
    decide
  have head := heads _ (lexeme.of_other plain.1 plain.2.1 plain.2.2).1
  exact of_decide_eq_true head blank

theorem Lexeme.closes (lexeme : Lexeme text kind literal) (begins : text <+: '"' :: rest) :
    '"' ∈ rest := by
  cases text with
  | nil => exact absurd rfl lexeme.ne_nil
  | cons first others =>
    obtain ⟨rfl, behind⟩ := List.cons_prefix_cons.mp begins
    obtain ⟨body, -, rfl, -, -⟩ := lexeme.of_quote
    exact behind.subset (by simp)

theorem Lexeme.of_blank (lexeme : Lexeme text kind literal) (blank : c ∈ blanks) (member : c ∈ text) :
    ∃ body, '"' ∉ body ∧ text = '"' :: (body ++ ['"']) := by
  -- A blank can stand in no operator, number or word, so the lexeme is a string.
  have plain : isWordPart c = false ∧ isLetter c = false ∧ isDigit c = false ∧ c ≠ '.' := by
    rcases mem_blanks.mp blank with rfl | rfl | rfl | rfl <;> decide
  obtain ⟨part, letter, digit, point⟩ := plain
  cases lexeme with
  | operator listed =>
    have plain : ∀ entry ∈ operators, entry.1.all (fun d => decide (d ∉ blanks)) = true := by decide
    exact absurd blank (of_decide_eq_true (List.all_eq_true.mp (plain _ listed) c member))
  | @number whole fraction _ digits more =>
    unfold numeral at member
    rcases List.mem_append.mp member with member | member
    · simp [digits c member] at digit
    · cases fraction with
      | nil => cases member
      | cons first others =>
        rcases List.mem_cons.mp member with same | member
        · exact absurd same point
        · simp [more c member] at digit
  | word isLetter parts =>
    rcases List.mem_cons.mp member with rfl | member
    · simp [isLetter] at letter
    · simp [parts c member] at part
  | string closed => exact ⟨_, closed, rfl⟩

/-- What begins a text and lacks a character ends before the character does. -/
theorem prefix_of_not_mem {head behind : List Char} (begins : head <+: text ++ c :: behind)
    (absent : c ∉ head) : head <+: text := by
  obtain ⟨tail, split⟩ := begins
  rcases List.append_eq_append_iff.mp split with ⟨rest, within, _⟩ | ⟨rest, rfl, more⟩
  · exact ⟨rest, within.symm⟩
  · cases rest with
    | nil => simp
    | cons d rest =>
      cases more
      simp at absent

/-- No lexeme that begins like another one goes on over a blank behind it. -/
theorem Lexeme.prefix_of_blank {chosen second behind : List Char} {otherKind : Kind}
    {otherLiteral : Option Literal} (lexeme : Lexeme chosen kind literal)
    (also : Lexeme second otherKind otherLiteral) (blank : c ∈ blanks)
    (begins : second <+: chosen ++ (rest ++ c :: behind)) : second <+: chosen ++ rest := by
  by_cases member : c ∈ second
  · -- Both are strings with the same opening quote, so they have the same closing one.
    obtain ⟨body, closed, rfl⟩ := also.of_blank blank member
    cases chosen with
    | nil => exact absurd rfl lexeme.ne_nil
    | cons d others =>
      obtain ⟨rfl, bodies⟩ := List.cons_prefix_cons.mp begins
      obtain ⟨twin, opened, rfl, -, -⟩ := lexeme.of_quote
      obtain ⟨tail, split⟩ := bodies
      have taken := (@takeWhile_of_cut _ body ('"' :: tail) (not_mem_iff.mp closed) (by simp)).1
      have also := (@takeWhile_of_cut _ twin ('"' :: (rest ++ c :: behind))
        (not_mem_iff.mp opened) (by simp)).1
      have same : body ++ '"' :: tail = twin ++ '"' :: (rest ++ c :: behind) := by
        simpa using split
      rw [← taken, same, also]
      exact List.prefix_append _ _
  · rw [← List.append_assoc] at begins
    exact prefix_of_not_mem begins member

theorem Longest.unique {chosen second : List Char} {otherKind : Kind} {otherLiteral : Option Literal}
    (longest : Longest text chosen kind literal)
    (also : Longest text second otherKind otherLiteral) :
    chosen = second ∧ kind = otherKind ∧ literal = otherLiteral := by
  have same : chosen = second :=
    (List.prefix_of_prefix_length_le longest.begins also.begins
      (also.longest longest.lexeme longest.begins)).eq_of_length_le
      (longest.longest also.lexeme also.begins)
  subst same
  exact ⟨rfl, longest.lexeme.unique also.lexeme⟩

def Tile.sort : Tile → Nat
  | .token .. => 0
  | .blank _ => 1
  | .comment _ => 2
  | .stray _ => 3
  | .unclosed _ => 4

theorem Tile.not_fits_of_sort_lt {behind : List Char} (fits : tile.Fits rest)
    (second : other.Fits behind) (same : tile.text ++ rest = other.text ++ behind) :
    ¬ tile.sort < other.sort := by
  intro less
  cases tile with
  | token lexeme kind literal =>
    obtain ⟨⟨isLexeme, -, -⟩, code⟩ := fits
    change lexeme ++ rest = _ at same
    cases lexeme with
    | nil => exact isLexeme.ne_nil rfl
    | cons first others =>
      -- A lexeme before a worse tile: none of the others can begin where a lexeme fits.
      cases other with
      | token => exact absurd less (Nat.lt_irrefl 0)
      | blank =>
        cases same
        exact isLexeme.not_blank second
      | comment body => exact code (same ▸ List.prefix_append ['/', '/'] (body ++ behind))
      | stray =>
        cases same
        exact second.2 _ _ _ isLexeme
      | unclosed body =>
        obtain ⟨opened, rfl⟩ := second
        rw [List.append_nil] at same
        have begins : first :: others <+: '"' :: body := ⟨rest, same⟩
        exact opened (isLexeme.closes begins)
  -- Behind a blank only one character is left to compare, and it is none of theirs.
  | blank =>
    cases other with
    | comment =>
      cases same
      exact absurd (show '/' ∈ blanks from fits) (by decide)
    | stray =>
      cases same
      exact second.1 fits
    | unclosed =>
      cases same
      exact absurd (show '"' ∈ blanks from fits) (by decide)
    | _ => simp [sort] at less
  | comment =>
    cases other with
    | stray =>
      cases same
      exact second.2 [] .slash none (.operator (by decide))
    | unclosed => cases same
    | _ => simp [sort] at less
  -- An open quote is not a stray character, since a quote begins a string.
  | stray =>
    cases other with
    | unclosed =>
      cases same
      exact fits.2 ['"'] .string _ (@Lexeme.string [] (by simp))
    | _ => simp [sort] at less
  | unclosed => cases other <;> simp [sort] at less

theorem Tile.eq_of_fits {behind : List Char} (fits : tile.Fits rest) (second : other.Fits behind)
    (same : tile.text ++ rest = other.text ++ behind) : tile = other := by
  -- Neither tile is of a better sort, so both are of the same one.
  have sorts : tile.sort = other.sort := by
    have := not_fits_of_sort_lt fits second same
    have := not_fits_of_sort_lt second fits same.symm
    omega
  cases tile with
  | token lexeme kind literal =>
    cases other with
    | token =>
      obtain ⟨rfl, rfl, rfl⟩ := fits.1.unique (same ▸ second.1)
      rfl
    | _ => cases sorts
  | blank =>
    cases other with
    | blank =>
      cases same
      rfl
    | _ => cases sorts
  | comment body =>
    cases other with
    | comment twin =>
      -- Both bodies are what stands in front of the next line feed.
      have taken := (takeWhile_of_cut (not_mem_iff.mp fits.1) (by simpa using fits.2)).1
      have also := (takeWhile_of_cut (not_mem_iff.mp second.1) (by simpa using second.2)).1
      have bodies : body ++ rest = twin ++ behind := by simpa [text] using same
      rw [← taken, bodies, also]
    | _ => cases sorts
  | stray =>
    cases other with
    | stray =>
      cases same
      rfl
    | _ => cases sorts
  | unclosed =>
    cases other with
    | unclosed =>
      obtain ⟨-, rfl⟩ := fits
      obtain ⟨-, rfl⟩ := second
      simpa [text] using same
    | _ => cases sorts

theorem Tiles.unique {tiles twins : List Tile} (tiled : Tiles text tiles)
    (also : Tiles text twins) : tiles = twins := by
  induction tiled generalizing twins with
  | nil =>
    generalize empty : ([] : List Char) = text at also
    cases also with
    | nil => rfl
    | cons fits =>
      exact absurd (List.append_eq_nil_iff.mp empty.symm).1 (Tile.text_ne_nil fits)
  | @cons tile rest tiles fits tiled ih =>
    generalize same : tile.text ++ rest = text at also
    cases also with
    | nil => exact absurd (List.append_eq_nil_iff.mp same).1 (Tile.text_ne_nil fits)
    | @cons other behind twins second also =>
      obtain rfl := Tile.eq_of_fits fits second same
      obtain rfl := List.append_cancel_left same
      rw [ih also]

end

end Lox.Token
