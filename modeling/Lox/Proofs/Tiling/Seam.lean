import Lox.Proofs.Tiling.Scan
import Lox.Proofs.Lines.Labels

/-! Two texts with a line feed between them.

The line feed ends a comment, and no other lexeme than a string reaches beyond it. So where
the first text closes its strings, the tiles of the whole are those of its parts, and the
tokens of the second part stand as many lines further down as the first part takes.
-/

set_option autoImplicit false

namespace Lox.Token

open Piece (isDigit isLetter isWordPart)

variable {text rest behind first second : List Char} {kind : Kind} {literal : Option Literal}
  {tile : Tile} {tiles more : List Tile}

theorem Longest.extend {chosen : List Char} (longest : Longest (chosen ++ rest) chosen kind literal) :
    Longest (chosen ++ (rest ++ '\n' :: behind)) chosen kind literal := by
  refine ⟨longest.lexeme, List.prefix_append _ _, ?_⟩
  intro other otherKind otherLiteral lexeme begins
  exact longest.longest lexeme (longest.lexeme.prefix_of_blank lexeme (by decide) begins)

theorem Tile.Fits.extend (fits : tile.Fits rest) (closed : ∀ line, tile.report? line = none) :
    tile.Fits (rest ++ '\n' :: behind) := by
  cases tile with
  | token lexeme kind literal =>
    refine ⟨fits.1.extend, fun comment => fits.2 ?_⟩
    rw [← List.append_assoc] at comment
    exact prefix_of_not_mem comment (by decide)
  | blank => exact fits
  | comment body =>
    refine ⟨fits.1, ?_⟩
    cases rest with
    | nil => simp
    | cons c rest => exact fits.2
  | stray => exact fits
  | unclosed => cases closed 0

theorem Tiles.append (tiled : Tiles first tiles)
    (closed : ∀ tile ∈ tiles, ∀ line, tile.report? line = none) (also : Tiles second more) :
    Tiles (first ++ '\n' :: second) (tiles ++ .blank '\n' :: more) := by
  induction tiled with
  | nil =>
    have feed : (Tile.blank '\n').Fits second := mem_blanks.mpr (.inr (.inr (.inr rfl)))
    exact .cons feed also
  | @cons tile rest tiles fits tiled ih =>
    obtain ⟨here, others⟩ := List.forall_mem_cons.mp closed
    rw [List.append_assoc]
    exact .cons (fits.extend here) (ih others)

namespace Tile

variable {α : Type} {read : Int → Tile → Option α}

theorem readOff_append (before : List Char) : readOff read before (tiles ++ more) =
    readOff read before tiles ++ readOff read (before ++ tiles.flatMap Tile.text) more := by
  induction tiles generalizing before with
  | nil => simp [readOff]
  | cons tile tiles ih =>
    rw [List.cons_append, readOff, readOff, ih, List.append_assoc, List.flatMap_cons,
      List.append_assoc]

theorem readOff_token? (before behind : List Char) : readOff token? (before ++ behind) tiles =
    (readOff token? behind tiles).map (Token.relabel (· + before.count '\n')) := by
  induction tiles generalizing behind with
  | nil => rfl
  | cons tile tiles ih =>
    have line : lineAfter (before ++ behind) = lineAfter behind + before.count '\n' := by
      simp only [lineAfter, List.count_append, Int.natCast_add]
      omega
    rw [readOff, readOff, List.append_assoc, ih, List.map_append, line]
    cases tile <;> rfl

theorem readOff_report?_eq_nil_iff (before : List Char) :
    readOff report? before tiles = [] ↔ ∀ tile ∈ tiles, ∀ line, tile.report? line = none := by
  induction tiles generalizing before with
  | nil => simp [readOff]
  | cons tile tiles ih =>
    have here (line : Int) :
        (tile.report? line).toList = [] ↔ ∀ line, tile.report? line = none := by
      cases tile <;> simp [report?]
    rw [readOff, List.append_eq_nil_iff, ih, here, List.forall_mem_cons]

end Tile

/-- The number of lines that a text takes from those behind it. -/
def newlines (text : List Char) : Int := 1 + text.count '\n'

/-- Without lexical errors, the tokens of two texts follow each other. -/
theorem Scan.ofText_append (clean : (ofText first).reports = [])
    (cleanSecond : (ofText second).reports = []) :
    (ofText (first ++ '\n' :: second)).tokens =
        (ofText first).tokens ++ (ofText second).tokens.map (Token.relabel (· + newlines first)) ∧
      (ofText (first ++ '\n' :: second)).reports = [] := by
  -- Each text has its own tiles, and with a blank between them these are the tiles of both.
  obtain ⟨tiles, tiled⟩ := Tiles.exists first
  obtain ⟨more, also⟩ := Tiles.exists second
  obtain ⟨tokens, reports, -⟩ := ofTextFrom_tiled tiled []
  obtain ⟨tokensAlso, reportsAlso, -⟩ := ofTextFrom_tiled also []
  have closed := (Tile.readOff_report?_eq_nil_iff []).mp (reports.symm.trans clean)
  have closedAlso := (Tile.readOff_report?_eq_nil_iff []).mp (reportsAlso.symm.trans cleanSecond)
  obtain ⟨tokensWhole, reportsWhole, -⟩ := ofTextFrom_tiled (tiled.append closed also) []
  constructor
  · refine tokensWhole.trans ?_
    -- The second text begins on the line behind the first.
    have whole := tiled.flatMap_text.1
    have further := @Tile.readOff_token? more (first ++ ['\n']) []
    rw [Tile.readOff_append, whole, Tile.readOff]
    rw [List.append_nil] at further
    refine congrArg₂ (· ++ ·) tokens.symm ?_
    refine further.trans ?_
    rw [← tokensAlso]
    simp [newlines, Int.add_comm]
    rfl
  · refine reportsWhole.trans ((Tile.readOff_report?_eq_nil_iff []).mpr ?_)
    intro tile member
    rcases List.mem_append.mp member with member | member
    · exact closed tile member
    · rcases List.mem_cons.mp member with rfl | member
      · exact fun _ => rfl
      · exact closedAlso tile member

end Lox.Token
