import Lox.Token.Scan
import Lox.Proofs.Tiling.Tile

/-! The scanner reads its tokens and its errors off the tiles of a text. -/

set_option autoImplicit false

namespace Lox.Token

open Piece (isDigit isLetter isWordPart)

section Piece
variable {c : Char} {rest : List Char} {kind : Kind} {kinds : Kind × Kind}

def Piece.Tiled (text : List Char) (piece : Piece) : Prop :=
  ∃ (tile : Tile) (behind : List Char), text = tile.text ++ behind ∧ tile.Fits behind ∧ piece = tile.piece

theorem not_comment (other : c ≠ '/') : ¬ ['/', '/'] <+: c :: rest := by
  intro comment
  exact other (List.cons_prefix_cons.mp comment).1.symm

namespace Piece

theorem tiled_operator {others behind : List Char} (listed : (c :: others, kind) ∈ operators)
    (split : rest = others ++ behind)
    (longest : ∀ entry ∈ operators, ∀ more, entry.1 = c :: more → more <+: rest →
      more.length ≤ others.length) (code : ¬ ['/', '/'] <+: c :: rest) :
    Tiled (c :: rest) (.token kind none (others.length + 1)) := by
  have begins : others <+: rest := ⟨behind, split.symm⟩
  refine ⟨.token (c :: others) kind none, behind, by rw [split]; rfl, ⟨?_, ?_⟩, rfl⟩
  · rw [List.cons_append, ← split]
    exact .operator listed begins longest
  · rwa [List.cons_append, ← split]

theorem tiled_single (single : single? c = some kind) :
    Tiled (c :: rest) (.token kind none 1) := by
  have listed : ([c], kind) ∈ operators := by
    unfold single? at single
    split at single <;> cases single <;> decide
  have alone : ∀ entry ∈ operators,
      entry.1.head?.all (fun c => (single? c).isNone || entry.1.length == 1) = true := by
    decide
  have other : c ≠ '/' := by
    rintro rfl
    cases single
  refine tiled_operator listed (List.nil_append rest).symm ?_ (not_comment other)
  intro entry member more same _
  have length := alone entry member
  rw [same, List.head?_cons, Option.all_some, single] at length
  have one : (c :: more).length = 1 := eq_of_beq length
  exact Nat.le_of_succ_le_succ one.le

theorem tiled_pair (paired : paired? c = some kinds) :
    Tiled (c :: rest) (ofPair kinds rest) := by
  have listed : ([c], kinds.1) ∈ operators ∧ ([c, '='], kinds.2) ∈ operators := by
    unfold paired? at paired
    split at paired <;> cases paired <;> decide
  -- An operator has at most one character behind its first, and that is an equals sign.
  have tails : ∀ entry ∈ operators, entry.1.tail = [] ∨ entry.1.tail = ['='] := by decide
  have other : c ≠ '/' := by
    rintro rfl
    cases paired
  unfold ofPair
  split
  next behind =>
    refine tiled_operator listed.2 rfl ?_ (not_comment other)
    intro entry member more same _
    rcases tails entry member with tail | tail <;> simp_all
  next alone =>
    refine tiled_operator listed.1 (List.nil_append rest).symm ?_ (not_comment other)
    intro entry member more same begins
    rcases tails entry member with tail | tail
    · simp_all
    -- An operator with the equals sign would be the longer one, but there is none behind.
    · obtain ⟨behind, rfl⟩ := begins
      rw [same, List.tail_cons] at tail
      subst tail
      exact absurd rfl (alone behind)

theorem head?_dropWhile {p : Char → Bool} (text : List Char) :
    ∀ c ∈ (text.dropWhile p).head?, p c = false := by
  intro c isHead
  have stops := List.head?_dropWhile_not p text
  rw [Option.mem_def.mp isHead] at stops
  exact stops

theorem tiled_slash : Tiled ('/' :: rest) (ofSlash rest) := by
  unfold ofSlash
  split
  next rest =>
    refine ⟨.comment (rest.takeWhile (· ≠ '\n')), rest.dropWhile (· ≠ '\n'), ?_, ⟨?_, ?_⟩, rfl⟩
    · simp [Tile.text]
    · exact not_mem_iff.mpr fun d => List.mem_takeWhile_imp
    · intro c isHead
      simpa using head?_dropWhile _ c isHead
  next alone =>
    have heads : ∀ entry ∈ operators, '/' ∈ entry.1.head? → entry.1 = ['/'] := by decide
    refine tiled_operator (by decide : (['/'], Kind.slash) ∈ operators) (List.nil_append rest).symm
      ?_ ?_
    · intro entry member more same _
      have := heads entry member (by rw [same]; rfl)
      simp_all
    · intro comment
      obtain ⟨behind, same⟩ := (List.cons_prefix_cons.mp comment).2
      exact alone behind same.symm

theorem tiled_quote : Tiled ('"' :: rest) (ofQuote rest) := by
  have split := List.takeWhile_append_dropWhile (p := (· ≠ '"')) (l := rest)
  have opened : '"' ∉ rest.takeWhile (· ≠ '"') := not_mem_iff.mpr fun d => List.mem_takeWhile_imp
  have stops := head?_dropWhile (p := (· ≠ '"')) rest
  unfold ofQuote
  dsimp only
  generalize rest.takeWhile (· ≠ '"') = body at *
  generalize rest.dropWhile (· ≠ '"') = behind at *
  subst split
  cases behind with
  | nil =>
    rw [if_pos (by simp)]
    exact ⟨.unclosed body, [], by simp [Tile.text], ⟨opened, rfl⟩, rfl⟩
  | cons quote behind =>
    obtain rfl : quote = '"' := by simpa using stops
    rw [if_neg (by simp)]
    refine ⟨.token ('"' :: (body ++ ['"'])) .string (some (.string (String.ofList body))), behind,
      by simp [Tile.text], ⟨?_, ?_⟩, by simp [Tile.piece]⟩
    · simpa using Longest.string opened
    · exact not_comment (by decide)

theorem tiled_longest {chosen : List Char} {literal : Option Literal}
    (longest : Longest (c :: rest) chosen kind literal) (other : c ≠ '/') :
    Tiled (c :: rest) (.token kind literal chosen.length) := by
  obtain ⟨behind, split⟩ := longest.begins
  refine ⟨.token chosen kind literal, behind, split.symm, ⟨?_, ?_⟩, rfl⟩
  · rwa [split]
  · rw [split]
    exact not_comment other

theorem tiled_number (digit : isDigit c = true) : Tiled (c :: rest) (ofNumber (c :: rest)) := by
  have other : c ≠ '/' := by
    rintro rfl
    cases digit
  have tiled := tiled_longest (@Longest.number c rest digit) other
  unfold ofNumber
  dsimp only
  generalize (c :: rest).takeWhile isDigit = whole at *
  cases points : fraction ((c :: rest).dropWhile isDigit) with
  | nil => simpa [numeral, points] using tiled
  | cons first others => simpa [numeral, points, Nat.add_assoc, Nat.add_comm 1] using tiled

theorem tiled_word (letter : isLetter c = true) : Tiled (c :: rest) (ofWord (c :: rest)) := by
  have other : c ≠ '/' := by
    rintro rfl
    cases letter
  exact tiled_longest (.word letter) other

theorem tiled_unexpected (single : single? c = none) (paired : paired? c = none) (slash : c ≠ '/')
    (blank : c ∉ blanks) (quote : c ≠ '"') (digit : isDigit c = false) (letter : isLetter c = false) :
    Tiled (c :: rest) .unexpected := by
  refine ⟨.stray c, rest, rfl, ⟨blank, ?_⟩, rfl⟩
  intro others kind literal lexeme
  have heads : ∀ entry ∈ operators, entry.1.head?.all
      (fun c => (single? c).isSome || (paired? c).isSome || c == '/') = true := by
    decide
  have head := heads _ (lexeme.of_other digit letter quote).1
  rw [List.head?_cons, Option.all_some, single, paired] at head
  exact slash (eq_of_beq head)

theorem tiled_ofHead (c : Char) (rest : List Char) : Tiled (c :: rest) (ofHead c rest) := by
  unfold ofHead
  split
  next single => exact tiled_single single
  next paired _ => exact tiled_pair paired
  next single paired =>
    -- Each further character is known not to be one of those before.
    have single : single? c = none := Option.eq_none_iff_forall_ne_some.mpr single
    have paired : paired? c = none := Option.eq_none_iff_forall_ne_some.mpr paired
    split
    next slash =>
      subst slash
      exact tiled_slash
    next slash =>
      split
      next blank =>
        exact ⟨.blank c, rest, rfl, mem_blanks.mpr blank, rfl⟩
      next blank =>
        split
        next quote =>
          subst quote
          exact tiled_quote
        next quote =>
          split
          next digit => exact tiled_number digit
          next digit =>
            split
            next letter => exact tiled_word letter
            next letter =>
              exact tiled_unexpected single paired slash (mt mem_blanks.mp blank) quote
                (Bool.eq_false_iff.mpr digit) (Bool.eq_false_iff.mpr letter)

theorem ofHead_eq {tile : Tile} {behind : List Char} (fits : tile.Fits behind)
    (split : c :: rest = tile.text ++ behind) : ofHead c rest = tile.piece := by
  obtain ⟨other, more, same, also, answer⟩ := tiled_ofHead c rest
  rw [answer, Tile.eq_of_fits fits also (split.symm.trans same)]

end Piece

end Piece

/-- The line of what stands behind a text. -/
def lineAfter (text : List Char) : Int := 1 + text.count '\n'

theorem lineAfter_append (first second : List Char) :
    lineAfter (first ++ second) = lineAfter first + second.count '\n' := by
  simp only [lineAfter, List.count_append, Int.natCast_add, Int.add_assoc]

namespace Tile

def token? (line : Int) : Tile → Option Token
  | .token lexeme kind literal => some ⟨kind, String.ofList lexeme, literal, line⟩
  | _ => none

def report? (line : Int) : Tile → Option Report
  | .stray _ => some (.atLine line "Unexpected character.")
  | .unclosed _ => some (.atLine line "Unterminated string.")
  | _ => none

/-- What the tiles behind a text give, each on its line. -/
def readOff {α : Type} (read : Int → Tile → Option α) (before : List Char) : List Tile → List α
  | [] => []
  | tile :: tiles =>
    (read (lineAfter before) tile).toList ++ readOff read (before ++ tile.text) tiles

end Tile

namespace Scan

variable {tile : Tile} {rest : List Char}

theorem ofTextFrom_append (taken rest : List Char) : ∀ line : Int,
    ofTextFrom line taken.length (taken ++ rest) = ofTextFrom (line + taken.count '\n') 0 rest := by
  induction taken with
  | nil => simp
  | cons c taken ih =>
    intro line
    rw [List.cons_append, List.length_cons, ofTextFrom, ih]
    by_cases feed : c = '\n'
    · simp [feed, Int.add_assoc, Int.add_comm 1]
    · simp [feed]

theorem ofTextFrom_tile (fits : tile.Fits rest) (line : Int) :
    ofTextFrom line 0 (tile.text ++ rest) =
      cons tile.piece (tile.text ++ rest) line
        (ofTextFrom (line + tile.text.count '\n') 0 rest) := by
  have length := Tile.length_piece fits
  rw [← ofTextFrom_append]
  cases split : tile.text with
  | nil => exact absurd split (Tile.text_ne_nil fits)
  | cons c others =>
    have head : Piece.ofHead c (others ++ rest) = tile.piece :=
      Piece.ofHead_eq fits (by rw [split]; rfl)
    rw [split] at length
    rw [List.cons_append, ofTextFrom, head, length]
    rfl

theorem cons_piece (fits : tile.Fits rest) (line : Int) (scan : Scan) :
    (cons tile.piece (tile.text ++ rest) line scan).tokens =
        (tile.token? line).toList ++ scan.tokens ∧
      (cons tile.piece (tile.text ++ rest) line scan).reports =
        (tile.report? line).toList ++ scan.reports ∧
      (cons tile.piece (tile.text ++ rest) line scan).lastLine = scan.lastLine := by
  cases tile with
  | token lexeme kind literal =>
    refine ⟨?_, rfl, rfl⟩
    simp [Tile.piece, cons, Tile.text, Tile.token?]
  | _ => exact ⟨rfl, rfl, rfl⟩

theorem ofTextFrom_tiled {text : List Char} {tiles : List Tile} (tiled : Tiles text tiles) :
    ∀ before, (ofTextFrom (lineAfter before) 0 text).tokens =
        Tile.readOff Tile.token? before tiles ∧
      (ofTextFrom (lineAfter before) 0 text).reports =
        Tile.readOff Tile.report? before tiles ∧
      (ofTextFrom (lineAfter before) 0 text).lastLine = lineAfter (before ++ text) := by
  induction tiled with
  | nil =>
    intro before
    rw [List.append_nil]
    exact ⟨rfl, rfl, rfl⟩
  | @cons tile rest tiles fits tiled ih =>
    intro before
    obtain ⟨tokens, reports, lastLine⟩ := ih (before ++ tile.text)
    obtain ⟨first, error, line⟩ := cons_piece fits (lineAfter before)
      (ofTextFrom (lineAfter before + tile.text.count '\n') 0 rest)
    rw [lineAfter_append] at tokens reports lastLine
    rw [ofTextFrom_tile fits, first, error, line, tokens, reports, lastLine, List.append_assoc]
    exact ⟨rfl, rfl, rfl⟩

end Scan

theorem Tiles.exists : ∀ text : List Char, ∃ tiles, Tiles text tiles
  | [] => ⟨[], .nil⟩
  | c :: rest => by
    obtain ⟨tile, behind, split, fits, -⟩ := Piece.tiled_ofHead c rest
    have shorter : behind.length < (c :: rest).length := by
      have some := List.length_pos_iff.mpr (Tile.text_ne_nil fits)
      rw [split, List.length_append]
      omega
    obtain ⟨tiles, tiled⟩ := Tiles.exists behind
    exact ⟨tile :: tiles, split ▸ .cons fits tiled⟩
termination_by text => text.length
decreasing_by exact shorter

theorem Tiles.flatMap_text {text : List Char} {tiles : List Tile} (tiled : Tiles text tiles) :
    tiles.flatMap Tile.text = text ∧ ∀ tile ∈ tiles, tile.text ≠ [] := by
  induction tiled with
  | nil => simp
  | @cons tile rest tiles fits tiled ih =>
    rw [List.flatMap_cons, ih.1]
    refine ⟨rfl, ?_⟩
    intro other member
    rcases List.mem_cons.mp member with rfl | member
    · exact Tile.text_ne_nil fits
    · exact ih.2 other member

/-- A text has one tiling into longest lexemes and what stands between them. The scanner
gives the lexemes, each with the line on which it begins, and the closing token on the
last line; it reports each character that begins no lexeme, and a string that is not
closed. -/
theorem Scan.ofText_tiled (text : List Char) : ∃ tiles, Tiles text tiles ∧
    (∀ others, Tiles text others → others = tiles) ∧
    tiles.flatMap Tile.text = text ∧ (∀ tile ∈ tiles, tile.text ≠ []) ∧
    (ofText text).closed = Tile.readOff Tile.token? [] tiles ++ [Token.finish (lineAfter text)] ∧
    (ofText text).reports = Tile.readOff Tile.report? [] tiles := by
  obtain ⟨tiles, tiled⟩ := Tiles.exists text
  obtain ⟨whole, nonempty⟩ := tiled.flatMap_text
  obtain ⟨tokens, reports, lastLine⟩ := Scan.ofTextFrom_tiled tiled []
  refine ⟨tiles, tiled, fun others also => also.unique tiled, whole, nonempty, ?_, reports⟩
  exact congrArg₂ (· ++ [·]) tokens (congrArg Token.finish lastLine)

end Lox.Token
