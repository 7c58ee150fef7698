import Lox.Proofs.Grammar.Seam
import Lox.Proofs.Grammar.Sequence
import Lox.Proofs.Lines.Grammar

/-! What a missing semicolon costs.

A program is put together from declarations that are read alone without errors, and one of
them lacks its semicolon. If that is an error, then it is reported at the first token of the
next declaration, and reading goes on behind that token: so the next declaration is lost
together with the one that lacks the semicolon.
-/

set_option autoImplicit false

namespace Lox

open Syntax Grammar
open Token (Kind)

namespace Syntax.StmtParser

def Ordinary (kind : Kind) : Prop := kind ≠ .semicolon ∧ kind ∉ starters

instance (kind : Kind) : Decidable (Ordinary kind) := inferInstanceAs (Decidable (_ ∧ _))

theorem resumeAfter_semicolon {semicolon : Token} {others : List Token}
    (isSemicolon : semicolon.kind = .semicolon) :
    ∀ {inner : List Token} {previous : Token}, (∀ token ∈ inner, Ordinary token.kind) →
      previous.kind ≠ .semicolon → resumeAfter previous (inner ++ semicolon :: others) = others
  | [], previous, _, goesOn => by
    have noBoundary : ¬ (previous.kind = .semicolon ∨ semicolon.kind ∈ starters) := by
      rw [isSemicolon, not_or]
      exact ⟨goesOn, by decide⟩
    rw [List.nil_append, resumeAfter, if_neg noBoundary]
    cases others with
    | nil => rfl
    | cons token others => rw [resumeAfter, if_pos (.inl isSemicolon)]
  | token :: inner, previous, ordinary, goesOn => by
    obtain ⟨first, rest⟩ := List.forall_mem_cons.mp ordinary
    rw [List.cons_append, resumeAfter, if_neg (not_or.mpr ⟨goesOn, first.2⟩)]
    exact resumeAfter_semicolon isSemicolon rest first.1

end Syntax.StmtParser

namespace Grammar

open StmtParser (Ordinary)

theorem Level.ordinary_of_operator (level : Level) : ∀ kind ∈ level.operators, Ordinary kind := by
  cases level <;> decide

theorem ordinary_of_constant {token : Token} {value : Literal}
    (isConstant : constant? token = some value) : Ordinary token.kind := by
  unfold constant? at isConstant
  split at isConstant <;> simp_all [Ordinary, StmtParser.starters]

theorem Phrase.ordinary {level : Level} {tokens : List Token} {expr : Expr}
    (derived : Phrase level tokens expr) : ∀ token ∈ tokens, Ordinary token.kind := by
  -- By recursion on the derivation, with one motive for each of the three mutual relations.
  refine @Phrase.rec (fun _ tokens _ _ => ∀ token ∈ tokens, Ordinary token.kind)
    (fun tokens _ _ => ∀ token ∈ tokens, Ordinary token.kind)
    (fun tokens _ _ => ∀ token ∈ tokens, Ordinary token.kind) ?constant ?name ?group ?call ?unary
    ?binary ?assign ?tighter ?none ?some ?last ?more _ _ _ derived
  case constant => exact fun isConstant => by simpa using ordinary_of_constant isConstant
  case name =>
    intro token isName
    simp only [List.mem_singleton, forall_eq, isName]
    decide
  case group =>
    intro _ _ _ _ isOpening _ isClosing inner
    simp only [List.forall_mem_append, List.forall_mem_cons, isOpening, isClosing]
    exact ⟨⟨by decide, inner⟩, by decide, nofun⟩
  case call =>
    intro _ _ _ _ _ _ _ isOpening _ isClosing callee inside
    simp only [List.forall_mem_append, List.forall_mem_cons, isOpening, isClosing]
    exact ⟨⟨callee, by decide, inside⟩, by decide, nofun⟩
  case unary =>
    intro _ _ _ isOperator _ operand
    refine List.forall_mem_cons.mpr ⟨?_, operand⟩
    rcases isOperator with kind | kind <;> rw [kind] <;> decide
  case binary =>
    intro level _ _ _ _ _ _ _ isOperator _ _ left right
    simp only [List.forall_mem_append, List.forall_mem_cons]
    exact ⟨left, level.ordinary_of_operator _ isOperator, right⟩
  case assign =>
    intro _ _ _ _ isName isEqual _ value
    simp only [List.forall_mem_cons, isName, isEqual]
    exact ⟨by decide, by decide, value⟩
  case tighter => exact fun _ _ inner => inner
  case none => simp
  case some => exact fun _ _ inside => inside
  case last => exact fun _ item => item
  case more =>
    intro _ _ _ _ _ _ isComma _ item items
    simp only [List.forall_mem_append, List.forall_mem_cons, isComma]
    exact ⟨item, by decide, items⟩

end Grammar

/-- A statement without statements or declarations inside it. -/
def Stmt.Simple : Stmt → Prop
  | .expression _ | .print _ | .varDecl .. | .ret .. => True
  | _ => False

namespace Grammar

open StmtParser (Ordinary resume)

inductive Stretch : List Token → Prop where
  | intro {first semicolon : Token} {inner : List Token} :
      first.kind ≠ .semicolon → (∀ token ∈ inner, Ordinary token.kind) →
      semicolon.kind = .semicolon → Stretch (first :: inner ++ [semicolon])

theorem Stretch.resume_append {tokens : List Token} (stretch : Stretch tokens) (others : List Token) :
    resume (tokens ++ others) = others := by
  obtain ⟨noSemicolon, ordinary, isSemicolon⟩ := stretch
  rw [List.append_assoc, List.cons_append, resume]
  exact StmtParser.resumeAfter_semicolon isSemicolon ordinary noSemicolon

variable {tokens : List Token} {stmt : Stmt}

theorem Closed.stretch {expr : Expr} (closed : Closed tokens expr) : Stretch tokens := by
  obtain ⟨derived, isSemicolon⟩ := closed
  have ordinary := derived.ordinary
  obtain ⟨first, tail, rfl, _⟩ := derived.head
  obtain ⟨isFirst, inner⟩ := List.forall_mem_cons.mp ordinary
  exact .intro isFirst.1 inner isSemicolon

theorem Declaration.stretch (derived : Declaration tokens stmt) (simple : stmt.Simple) :
    Stretch tokens := by
  cases derived with
  | function => exact simple.elim
  | «variable» derived =>
    cases derived with
    | @bare word name _ isWord isName isSemicolon =>
      refine @Stretch.intro word _ [name] (by simp [isWord]) ?_ isSemicolon
      simp only [List.mem_singleton, forall_eq, isName]
      decide
    | @initialized word name equals _ _ isWord isName isEqual closed =>
      -- What stands between the word and the semicolon is an expression, which has no semicolon.
      obtain @⟨_, tokens, _, derived, isSemicolon⟩ := closed
      refine @Stretch.intro word _ (name :: equals :: tokens) (by simp [isWord]) ?_ isSemicolon
      simp only [List.forall_mem_cons, isName, isEqual]
      exact ⟨by decide, by decide, derived.ordinary⟩
  | statement derived =>
    cases derived with
    | expression closed => exact closed.stretch
    | @print word _ _ isWord closed =>
      obtain @⟨_, tokens, _, derived, isSemicolon⟩ := closed
      exact @Stretch.intro word _ tokens (by simp [isWord]) derived.ordinary isSemicolon
    | ret isWord clause isSemicolon =>
      refine .intro (by simp [isWord]) ?_ isSemicolon
      cases clause with
      | absent => simp
      | present derived => exact derived.ordinary
    -- Only the initializer of a loop could make it simple, and it does not.
    | @forLoop _ _ _ _ _ _ _ _ initializer => cases initializer <;> exact simple.elim
    | block | loop | ifOnly | ifElse => exact simple.elim

end Grammar

namespace Program

/-- Tokens that are one declaration when they stand alone. -/
structure Part where
  tokens : List Token
  stmt : Stmt
  alone : ofTokens tokens = ⟨[stmt], []⟩

namespace Part

def join (parts : List Part) : List Token := parts.flatMap Part.tokens

theorem declaration (part : Part) : Declaration part.tokens part.stmt := by
  have derived := derives_of_ofTokens_eq part.alone
  generalize part.tokens = tokens at derived
  cases derived with
  | more first others =>
    cases others
    rw [List.append_nil]
    exact first

theorem join_derives : ∀ parts : List Part, Declarations (join parts) (parts.map Part.stmt)
  | [] => .none
  | part :: parts => .more part.declaration (join_derives parts)

end Part

theorem ofTokens_leftOut {cut next others : List Token} {cause : SyntaxError.Cause}
    (some : next ≠ []) (leftOut : LeftOut cut next cause) :
    ofTokens (cut ++ (next ++ others)) =
      let left := ofTokens (StmtParser.resume (next ++ others))
      ⟨left.statements, ⟨next.head?, cause⟩ :: left.errors⟩ := by
  have whole := declarations_ofTokens (cut ++ (next ++ others))
  generalize same : 2 * (cut ++ (next ++ others)).length + 3 = fuel at whole
  obtain ⟨first, tail, rfl⟩ := List.exists_cons_of_ne_nil some
  have shorter := StmtParser.resumeAfter_length (tail ++ others) first
  simp only [List.length_append, List.length_cons] at same shorter
  obtain ⟨steps, rfl⟩ : ∃ steps, fuel = steps + 1 := ⟨fuel - 1, by omega⟩
  have goesOn : (cut ++ (first :: tail ++ others)).head?.all (·.kind ∈ []) = false := by
    cases cut <;> simp
  rw [StmtParser.declarations] at whole
  simp only [goesOn, Bool.false_eq_true, if_false, leftOut (steps + 1) others (by omega)] at whole
  simp only [Parsed.bind, List.cons_append, StmtParser.resume] at whole
  rw [declarations_of_le _ (by omega) (by omega)] at whole
  simp only [Parsed.after, Parsed.ok.injEq, Option.toList_none, List.nil_append, List.append_nil,
    List.singleton_append] at whole
  obtain ⟨statements, _, errors⟩ := whole
  exact (congr (congrArg mk statements) errors).symm

/-- If it is an error that one of several declarations lacks its semicolon, then the declarations
before it are read, and the first error is at the first token of the declaration behind it. That
token is dropped, so of the two only what then reads as another declaration is left; if the second
one is simple, nothing is. -/
theorem ofTokens_withoutSemicolon (before behind : List Part) (next : Part) {cut : List Token}
    {semicolon : Token} {stmt : Stmt} (isSemicolon : semicolon.kind = .semicolon)
    (alone : ofTokens (cut ++ [semicolon]) = ⟨[stmt], []⟩)
    (failed : (ofTokens (Part.join before ++ (cut ++ (next.tokens ++ Part.join behind)))).errors ≠ []) :
    let left := ofTokens (StmtParser.resume (next.tokens ++ Part.join behind))
    (∃ cause, ofTokens (Part.join before ++ (cut ++ (next.tokens ++ Part.join behind))) =
      ⟨before.map Part.stmt ++ left.statements, ⟨next.tokens.head?, cause⟩ :: left.errors⟩) ∧
    (next.stmt.Simple → left = ⟨behind.map Part.stmt, []⟩) := by
  intro left
  have declared : Declaration (cut ++ [semicolon]) stmt := Part.declaration ⟨_, _, alone⟩
  constructor
  · rcases next.declaration.seam isSemicolon declared with ⟨whole, joined⟩ | ⟨cause, leftOut⟩
    -- If the two declarations are one, then the whole program is without errors.
    · have derived := (Declarations.more joined (Part.join_derives behind)).append
        (Part.join_derives before)
      rw [List.append_assoc cut] at derived
      exact absurd (congrArg errors (ofTokens_eq_of_derives derived)) failed
    · have apart : ∀ first ∈ (cut ++ (next.tokens ++ Part.join behind)).head?,
          first.kind ≠ .elseWord := by
        obtain ⟨first, tail, rfl, isFirst⟩ := declared.cut_head isSemicolon
        intro token same isElse
        cases same
        rw [isElse] at isFirst
        exact absurd isFirst (by decide)
      obtain ⟨first, tail, same, _⟩ := next.declaration.head
      have some : next.tokens ≠ [] := same ▸ List.cons_ne_nil first tail
      refine ⟨cause, ?_⟩
      rw [ofTokens_behind (ofTokens_eq_of_derives (Part.join_derives before)) apart,
        ofTokens_leftOut some leftOut]
  · intro simple
    have dropped := (next.declaration.stretch simple).resume_append (Part.join behind)
    simp only [left, dropped]
    exact ofTokens_eq_of_derives (Part.join_derives behind)

/-- A statement that prints nil, up to its semicolon. -/
def printNil (line : Int) : List Token := [⟨.printWord, "print", none, line⟩,
  ⟨.nilWord, "nil", none, line⟩]

/-- On each line, the same statement in full. -/
def Part.printNil (line : Int) : Part :=
  ⟨Program.printNil line ++ [⟨.semicolon, ";", none, line⟩], .print (.literal .nil), rfl⟩

/-- Of four statements, the second lacks its semicolon; the third is lost with it. -/
theorem ofTokens_withoutSemicolon_printNil :
    let text := Part.join [Part.printNil 1] ++
      (printNil 2 ++ ((Part.printNil 3).tokens ++ Part.join [Part.printNil 4]))
    (ofTokens text).errors ≠ [] ∧
      ofTokens text = ⟨[.print (.literal .nil), .print (.literal .nil)],
        [⟨some ⟨.printWord, "print", none, 3⟩, .semicolonAfterValue⟩]⟩ ∧
      ofTokens (StmtParser.resume ((Part.printNil 3).tokens ++ Part.join [Part.printNil 4])) =
        ⟨[.print (.literal .nil)], []⟩ := by
  intro text
  have isSemicolon : (⟨.semicolon, ";", none, 2⟩ : Token).kind = .semicolon := rfl
  have failed : (ofTokens text).errors ≠ [] := nofun
  have lost := (ofTokens_withoutSemicolon [Part.printNil 1] [Part.printNil 4] (Part.printNil 3)
    isSemicolon (Part.printNil 2).alone failed).2 trivial
  exact ⟨failed, rfl, lost⟩

end Program

end Lox
