import Lox.Proofs.Tiling.Scan

/-! Texts written out of lexemes.

Between two lexemes stands a blank, with any further blanks and comments behind it. No
lexeme goes on over a blank behind it, so the scanner reads back what was written.
-/

set_option autoImplicit false

namespace Lox.Token

inductive Spacing : List Char → Prop where
  | nil : Spacing []
  | blank {c : Char} {rest : List Char} : c ∈ blanks → Spacing rest → Spacing (c :: rest)
  | comment {body rest : List Char} :
      '\n' ∉ body → Spacing rest → Spacing ('/' :: '/' :: (body ++ '\n' :: rest))

/-- What may stand between two lexemes. -/
inductive Separator : List Char → Prop where
  | intro {c : Char} {rest : List Char} : c ∈ blanks → Spacing rest → Separator (c :: rest)

/-- A lexeme with what is written before it. -/
structure Written where
  before : List Char
  lexeme : List Char
  kind : Kind
  literal : Option Literal
  isLexeme : Lexeme lexeme kind literal

namespace Written

/-- The text of lexemes, with what is written behind the last one. -/
def text (written : List Written) (last : List Char) : List Char :=
  written.flatMap (fun one => one.before ++ one.lexeme) ++ last

/-- The tokens of lexemes that are written behind a text. -/
def tokens (before : List Char) : List Written → List Token
  | [] => []
  | one :: others =>
    ⟨one.kind, String.ofList one.lexeme, one.literal, lineAfter (before ++ one.before)⟩ ::
      tokens (before ++ one.before ++ one.lexeme) others

theorem text_cons (one : Written) (others : List Written) (last : List Char) :
    text (one :: others) last = one.before ++ (one.lexeme ++ text others last) := by
  simp [text]

end Written

section
variable {text rest : List Char} {kind : Kind} {literal : Option Literal}

theorem Separator.spacing (separator : Separator text) : Spacing text := by
  obtain ⟨blank, spacing⟩ := separator
  exact .blank blank spacing

theorem Separator.head (separator : Separator text) (behind : List Char) :
    ∀ c ∈ (text ++ behind).head?, c ∈ blanks := by
  obtain ⟨blank, _⟩ := separator
  intro c same
  cases same
  exact blank

/-- A lexeme is the longest one where it ends the text or stands before a blank. -/
theorem Lexeme.longest (lexeme : Lexeme text kind literal) (apart : ∀ c ∈ rest.head?, c ∈ blanks) :
    Longest (text ++ rest) text kind literal := by
  refine ⟨lexeme, List.prefix_append _ _, ?_⟩
  intro other otherKind otherLiteral second begins
  cases rest with
  | nil =>
    rw [List.append_nil] at begins
    exact begins.length_le
  | cons c rest =>
    have goesOn : other <+: text ++ ([] ++ c :: rest) := begins
    have within := lexeme.prefix_of_blank second (apart c rfl) goesOn
    rw [List.append_nil] at within
    exact within.length_le

theorem Lexeme.not_comment (lexeme : Lexeme text kind literal)
    (apart : ∀ c ∈ rest.head?, c ∈ blanks) : ¬ ['/', '/'] <+: text ++ rest := by
  rintro ⟨behind, same⟩
  cases text with
  | nil => exact lexeme.ne_nil rfl
  | cons c others =>
    obtain ⟨rfl, more⟩ := List.cons.inj same
    have listed := (lexeme.of_other (by decide) (by decide) (by decide)).1
    have heads : ∀ entry ∈ operators, entry.1.head? = some '/' → entry.1.tail = [] := by decide
    obtain rfl : others = [] := heads _ listed rfl
    obtain rfl : '/' :: behind = rest := more
    exact absurd (apart '/' rfl) (by decide)

namespace Scan

theorem ofTextFrom_gap {tile : Tile} {length : Nat} (fits : tile.Fits rest)
    (gap : tile.piece = .gap length) (line : Int) :
    ofTextFrom line 0 (tile.text ++ rest) =
      ofTextFrom (line + tile.text.count '\n') 0 rest := by
  rw [ofTextFrom_tile fits, gap]
  rfl

theorem ofTextFrom_spacing (spacing : Spacing text) (rest : List Char) : ∀ line : Int,
    ofTextFrom line 0 (text ++ rest) = ofTextFrom (line + text.count '\n') 0 rest := by
  induction spacing with
  | nil => simp
  | @blank c others blank _ ih =>
    intro line
    refine (@ofTextFrom_gap (others ++ rest) (.blank c) 1 blank rfl line).trans ?_
    rw [ih, Int.add_assoc, ← Int.natCast_add, ← List.count_append]
    rfl
  | @comment body others plain _ ih =>
    intro line
    -- The line feed is a blank of its own, behind the comment that it ends.
    have feed : (Tile.blank '\n').Fits (others ++ rest) := mem_blanks.mpr (.inr (.inr (.inr rfl)))
    have passed := @ofTextFrom_gap ('\n' :: (others ++ rest)) (.comment body) _
      ⟨plain, by simp⟩ rfl line
    have ended := @ofTextFrom_gap (others ++ rest) (.blank '\n') 1 feed rfl
      (line + (Tile.comment body).text.count '\n')
    have whole : '/' :: '/' :: (body ++ '\n' :: others) ++ rest =
        (Tile.comment body).text ++ '\n' :: (others ++ rest) := by
      simp [Tile.text]
    rw [whole, passed]
    refine ended.trans ?_
    rw [ih]
    congr 1
    simp [Tile.text]
    omega

theorem ofTextFrom_lexeme (lexeme : Lexeme text kind literal)
    (apart : ∀ c ∈ rest.head?, c ∈ blanks) (line : Int) :
    ofTextFrom line 0 (text ++ rest) =
      { ofTextFrom (line + text.count '\n') 0 rest with
        tokens := ⟨kind, String.ofList text, literal, line⟩ ::
          (ofTextFrom (line + text.count '\n') 0 rest).tokens } := by
  have fits : (Tile.token text kind literal).Fits rest :=
    ⟨lexeme.longest apart, lexeme.not_comment apart⟩
  refine (ofTextFrom_tile fits line).trans ?_
  simp [Tile.piece, Tile.text, cons]

end Scan

end

namespace Written

theorem head_text {written : List Written} {last : List Char}
    (separated : ∀ one ∈ written, Separator one.before) (ends : last = [] ∨ Separator last) :
    ∀ c ∈ (text written last).head?, c ∈ blanks := by
  cases written with
  | nil =>
    rcases ends with rfl | separator
    · exact nofun
    · simpa [text] using separator.head []
  | cons one others =>
    rw [text_cons]
    exact (separated one List.mem_cons_self).head _

theorem ofTextFrom_text {last : List Char} (ends : last = [] ∨ Separator last) :
    ∀ (written : List Written) (before : List Char),
      (∀ one ∈ written.head?, Spacing one.before) → (∀ one ∈ written.tail, Separator one.before) →
      Scan.ofTextFrom (lineAfter before) 0 (text written last) =
        ⟨tokens before written, lineAfter (before ++ text written last), []⟩ := by
  intro written
  induction written with
  | nil =>
    intro before _ _
    have spacing : Spacing last := ends.elim (fun none => none ▸ .nil) Separator.spacing
    have passed := Scan.ofTextFrom_spacing spacing [] (lineAfter before)
    rw [List.append_nil, ← lineAfter_append] at passed
    exact passed
  | cons one others ih =>
    intro before first separated
    have scanned := ih (before ++ one.before ++ one.lexeme)
      (fun next member => (separated next (List.mem_of_mem_head? member)).spacing)
      (fun next member => separated next (List.mem_of_mem_tail member))
    rw [text_cons, Scan.ofTextFrom_spacing (first one rfl), ← lineAfter_append,
      Scan.ofTextFrom_lexeme one.isLexeme (@head_text others last separated ends), ← lineAfter_append, scanned]
    simp [tokens]

end Written

/-! ### The tokens of a text, written out again -/

theorem Tiles.lexeme_of_mem {text : List Char} {tiles : List Tile} (tiled : Tiles text tiles) :
    ∀ before, ∀ token ∈ Tile.readOff Tile.token? before tiles,
      Lexeme token.lexeme.toList token.kind token.literal := by
  induction tiled with
  | nil => simp [Tile.readOff]
  | @cons tile rest tiles fits _ ih =>
    intro before token member
    rw [Tile.readOff] at member
    rcases List.mem_append.mp member with here | later
    · cases tile with
      | token lexeme kind literal =>
        rw [Option.mem_toList] at here
        cases here
        rw [String.toList_ofList]
        exact fits.1.lexeme
      | _ => cases here
    · exact ih _ token later

def content (token : Token) : Kind × String × Option Literal :=
  (token.kind, token.lexeme, token.literal)

def spaced (tokens : List Token) : List Char :=
  List.intercalate [' '] (tokens.map (·.lexeme.toList))

theorem exists_written_spaced (others : List Token) : ∀ (first : Token) (start : List Char),
    (∀ token ∈ first :: others, Lexeme token.lexeme.toList token.kind token.literal) →
    ∃ (one : Written) (more : List Written), one.before = start ∧
      (∀ next ∈ more, next.before = [' ']) ∧
      Written.text (one :: more) [] = start ++ spaced (first :: others) ∧
      ∀ before, (Written.tokens before (one :: more)).map content = (first :: others).map content := by
  induction others with
  | nil =>
    intro first start lexemes
    refine ⟨⟨start, _, _, _, lexemes first List.mem_cons_self⟩, [], rfl, by simp, ?_, ?_⟩
    · simp [Written.text, spaced]
    · simp [Written.tokens, content]
  | cons second others ih =>
    intro first start lexemes
    obtain ⟨one, more, isBlank, blanks, text, contents⟩ :=
      ih second [' '] fun token member => lexemes token (.tail _ member)
    refine ⟨⟨start, _, _, _, lexemes first List.mem_cons_self⟩, one :: more, rfl, ?_, ?_, ?_⟩
    · exact List.forall_mem_cons.mpr ⟨isBlank, blanks⟩
    · rw [Written.text_cons, text]
      simp [spaced, List.intercalate_cons_cons]
    · intro before
      rw [Written.tokens, List.map_cons, contents]
      simp [content]

theorem separator_blank : Separator [' '] := .intro (by decide) .nil

namespace Scan

/-- What is written is read back: lexemes with separators between them give their tokens
in order, each on its line, and no error. So do the lexemes of any text when they are
written with single blanks between them. -/
theorem ofText_written :
    (∀ (written : List Written) (last : List Char),
      (∀ one ∈ written.head?, one.before = [] ∨ Separator one.before) →
      (∀ one ∈ written.tail, Separator one.before) → last = [] ∨ Separator last →
      (ofText (Written.text written last)).reports = [] ∧
      (ofText (Written.text written last)).closed =
        Written.tokens [] written ++ [Token.finish (lineAfter (Written.text written last))]) ∧
    ∀ text : List Char, (ofText (spaced (ofText text).tokens)).reports = [] ∧
      (ofText (spaced (ofText text).tokens)).tokens.map content =
        (ofText text).tokens.map content := by
  constructor
  · intro written last first separated ends
    -- At the beginning there may be nothing before a lexeme; behind another one there may not.
    have spacing : ∀ one ∈ written.head?, Spacing one.before := fun one member =>
      (first one member).elim (fun none => none ▸ .nil) Separator.spacing
    have scanned := Written.ofTextFrom_text ends written [] spacing separated
    have whole : ofText (Written.text written last) =
        ⟨Written.tokens [] written, lineAfter (Written.text written last), []⟩ := scanned
    rw [whole]
    exact ⟨rfl, rfl⟩
  · intro text
    -- The tokens of any text are lexemes, so the first part applies to them.
    obtain ⟨tiles, tiled⟩ := Tiles.exists text
    have lexemes := tiled.lexeme_of_mem []
    rw [← (ofTextFrom_tiled tiled []).1] at lexemes
    change ∀ token ∈ (ofText text).tokens, _ at lexemes
    cases tokens : (ofText text).tokens with
    | nil => exact ⟨rfl, rfl⟩
    | cons first others =>
      obtain ⟨one, more, none, blanks, same, contents⟩ :=
        exists_written_spaced others first [] (tokens ▸ lexemes)
      have spacing : ∀ next ∈ (one :: more).head?, Spacing next.before := by
        rintro next ⟨⟩
        exact none ▸ .nil
      have separated : ∀ next ∈ (one :: more).tail, Separator next.before :=
        fun next member => blanks next member ▸ separator_blank
      have scanned := Written.ofTextFrom_text (.inl rfl) (one :: more) [] spacing separated
      have whole : ofText (spaced (first :: others)) =
          ⟨Written.tokens [] (one :: more), _, []⟩ := same ▸ scanned
      rw [whole]
      exact ⟨rfl, contents []⟩

/-- A string with a comment's beginning and a line feed in it, and behind it two operators
that would be one without the comment between them. -/
def bangBeforeEqual : List Written := [
  ⟨[], '"' :: (['/', '/', '\n'] ++ ['"']), _, _, .string (by decide)⟩,
  ⟨[' '], ['!'], .bang, none, .operator (by decide)⟩,
  ⟨['\t', '/', '/', '"', '\n'], ['='], .equal, none, .operator (by decide)⟩]

theorem ofText_written_bangBeforeEqual :
    (∀ one ∈ bangBeforeEqual.tail, Separator one.before) ∧
      (ofText (Written.text bangBeforeEqual [])).reports = [] ∧
      (ofText (Written.text bangBeforeEqual [])).closed.map (fun token => (token.kind, token.line)) =
        [(.string, 1), (.bang, 2), (.equal, 3), (.endOfInput, 3)] := by
  have separated : ∀ one ∈ bangBeforeEqual.tail, Separator one.before := by
    have behindBlank : Separator ['\t', '/', '/', '"', '\n'] :=
      .intro (by decide) (@Spacing.comment ['"'] [] (by decide) .nil)
    exact List.forall_mem_cons.mpr ⟨separator_blank, List.forall_mem_cons.mpr ⟨behindBlank, by simp⟩⟩
  have first : ∀ one ∈ bangBeforeEqual.head?, one.before = [] ∨ Separator one.before := by
    rintro one ⟨⟩
    exact .inl rfl
  obtain ⟨clean, closed⟩ := ofText_written.1 bangBeforeEqual [] first separated (.inl rfl)
  refine ⟨separated, clean, ?_⟩
  rw [closed]
  decide

end Scan

end Lox.Token
