import Lox.Syntax.Parsed

/-! Readings that meet no error.

`Reads` says that a parser reads a value from the front of the tokens without an
error and leaves the rest. Each way to build a parser has an equivalence for it,
so a proof about a parser never looks at the errors it could have noted.
-/

set_option autoImplicit false

namespace Lox.Syntax

open Token (Kind)

variable {α β : Type}

theorem Parsed.bind_eq_ok_nil {parsed : Parsed α} {next : α → List Token → Parsed β} {value : β}
    {rest : List Token} :
    parsed.bind next = .ok value rest [] ↔
      ∃ first middle, parsed = .ok first middle [] ∧ next first middle = .ok value rest [] := by
  constructor
  · intro same
    cases parsed with
    | ok first middle errors =>
      cases answer : next first middle with
      | ok found left others =>
        simp only [Parsed.bind, Parsed.after, answer, Parsed.ok.injEq,
          List.append_eq_nil_iff] at same
        obtain ⟨rfl, rfl, rfl, rfl⟩ := same
        exact ⟨first, middle, rfl, answer⟩
      | stopped left others last => simp [Parsed.bind, Parsed.after, answer] at same
      | exhausted => simp [Parsed.bind, Parsed.after, answer] at same
    | stopped left errors last => simp [Parsed.bind] at same
    | exhausted => simp [Parsed.bind] at same
  · rintro ⟨first, middle, rfl, answer⟩
    simp [Parsed.bind, Parsed.after, answer]

def Stops (kinds : List Kind) (tokens : List Token) : Prop :=
  ∀ token ∈ tokens.head?, token.kind ∉ kinds

theorem Stops.mono {kinds others : List Kind} {tokens : List Token} (stops : Stops kinds tokens)
    (subset : others ⊆ kinds) : Stops others tokens :=
  fun token member other => stops token member (subset other)

theorem Stops.append {kinds others : List Kind} {tokens : List Token} (stops : Stops kinds tokens)
    (more : Stops others tokens) : Stops (kinds ++ others) tokens := by
  intro token next member
  rcases List.mem_append.mp member with here | there
  · exact stops token next here
  · exact more token next there

@[simp] theorem stops_cons {kinds : List Kind} {token : Token} {tokens : List Token} :
    Stops kinds (token :: tokens) ↔ token.kind ∉ kinds := by
  simp [Stops]

@[simp] theorem stops_nil {kinds : List Kind} : Stops kinds [] := by
  simp [Stops]

theorem Parsed.after_nil (parsed : Parsed α) : parsed.after [] = parsed := by
  cases parsed <;> rfl

theorem Parsed.ok_bind (value : α) (rest : List Token) (next : α → List Token → Parsed β) :
    (Parsed.ok value rest []).bind next = next value rest :=
  after_nil _

namespace Parser

/-- A value is read from the front of the tokens, without errors. -/
def Reads (parser : Parser α) (tokens : List Token) (value : α) (rest : List Token) : Prop :=
  parser tokens = .ok value rest []

section
variable {tokens rest : List Token} {value : α}

@[simp] theorem reads_pure {other : α} :
    (pure other : Parser α).Reads tokens value rest ↔ value = other ∧ rest = tokens := by
  simp only [Reads, pure_apply, Parsed.ok.injEq, and_true]
  exact and_congr eq_comm eq_comm

theorem reads_bind {parser : Parser β} {next : β → Parser α} :
    (parser >>= next).Reads tokens value rest ↔
      ∃ first middle, parser.Reads tokens first middle ∧ (next first).Reads middle value rest :=
  Parsed.bind_eq_ok_nil

theorem reads_map {parser : Parser β} {change : β → α} :
    (change <$> parser).Reads tokens value rest ↔
      ∃ first, parser.Reads tokens first rest ∧ value = change first := by
  change (parser >>= fun first => pure (change first)).Reads tokens value rest ↔ _
  simp only [reads_bind, reads_pure]
  constructor
  · rintro ⟨first, middle, reads, rfl, rfl⟩
    exact ⟨first, reads, rfl⟩
  · rintro ⟨first, reads, rfl⟩
    exact ⟨first, rest, reads, rfl, rfl⟩

@[simp] theorem not_reads_exhausted : ¬ (exhausted : Parser α).Reads tokens value rest := by
  simp [Reads, exhausted]

@[simp] theorem not_reads_stop {cause : SyntaxError.Cause} :
    ¬ (stop cause : Parser α).Reads tokens value rest := by
  simp [Reads, stop]

@[simp] theorem not_reads_noteAt {at? : Option Token} {cause : SyntaxError.Cause} {done : Unit} :
    ¬ (noteAt at? cause).Reads tokens done rest := by
  simp [Reads, noteAt]

@[simp] theorem not_reads_note {cause : SyntaxError.Cause} {done : Unit} :
    ¬ (note cause).Reads tokens done rest :=
  not_reads_noteAt

end

section
variable {tokens rest : List Token} {kinds : List Kind} {kind : Kind}

theorem reads_nextIs {answer : Bool} :
    (nextIs kind).Reads tokens answer rest ↔
      answer = tokens.head?.any (·.kind = kind) ∧ rest = tokens := by
  simp only [Reads, nextIs, Parsed.ok.injEq, and_true]
  exact and_congr eq_comm eq_comm

theorem reads_accept?_some {token : Token} :
    (accept? kinds).Reads tokens (some token) rest ↔
      tokens = token :: rest ∧ token.kind ∈ kinds := by
  cases tokens with
  | nil => simp [Reads, accept?]
  | cons head tail =>
    by_cases member : head.kind ∈ kinds
    · simp only [Reads, accept?, member, if_true, Parsed.ok.injEq, Option.some.injEq, and_true,
        List.cons.injEq]
      constructor
      · rintro ⟨rfl, rfl⟩
        exact ⟨⟨rfl, rfl⟩, member⟩
      · rintro ⟨⟨rfl, rfl⟩, _⟩
        exact ⟨rfl, rfl⟩
    · simp only [Reads, accept?, member, if_false, Parsed.ok.injEq, reduceCtorEq, false_and,
        List.cons.injEq, false_iff, not_and, and_imp]
      rintro rfl rfl
      exact member

theorem reads_accept?_none :
    (accept? kinds).Reads tokens none rest ↔ rest = tokens ∧ Stops kinds tokens := by
  cases tokens with
  | nil => simp [Reads, accept?, eq_comm]
  | cons head tail =>
    by_cases member : head.kind ∈ kinds
    · simp [Reads, accept?, member]
    · simp [Reads, accept?, member, eq_comm]

/-- A parser that first looks for a token either goes on without one or takes it. -/
theorem reads_accept?_bind {next : Option Token → Parser α} {value : α} :
    (accept? kinds >>= next).Reads tokens value rest ↔
      (Stops kinds tokens ∧ (next none).Reads tokens value rest) ∨
      ∃ token middle, tokens = token :: middle ∧ token.kind ∈ kinds ∧
        (next (some token)).Reads middle value rest := by
  rw [reads_bind]
  constructor
  · rintro ⟨first, middle, accepted, reads⟩
    cases first with
    | none =>
      obtain ⟨rfl, stops⟩ := reads_accept?_none.mp accepted
      exact .inl ⟨stops, reads⟩
    | some token =>
      obtain ⟨same, member⟩ := reads_accept?_some.mp accepted
      exact .inr ⟨token, middle, same, member, reads⟩
  · rintro (⟨stops, reads⟩ | ⟨token, middle, same, member, reads⟩)
    · exact ⟨none, tokens, reads_accept?_none.mpr ⟨rfl, stops⟩, reads⟩
    · exact ⟨some token, middle, reads_accept?_some.mpr ⟨same, member⟩, reads⟩

theorem reads_expect {cause : SyntaxError.Cause} {token : Token} :
    (expect kind cause).Reads tokens token rest ↔ tokens = token :: rest ∧ token.kind = kind := by
  rw [expect, reads_accept?_bind]
  constructor
  · rintro (⟨_, stopped⟩ | ⟨taken, middle, rfl, member, reads⟩)
    · exact absurd stopped not_reads_stop
    · obtain ⟨rfl, rfl⟩ := reads_pure.mp reads
      exact ⟨rfl, List.mem_singleton.mp member⟩
  · rintro ⟨rfl, same⟩
    exact .inr ⟨token, rest, rfl, List.mem_singleton.mpr same, reads_pure.mpr ⟨rfl, rfl⟩⟩

end

/-- What is read without errors is derived from the tokens that were used. -/
def Sound (parser : Parser α) (derives : List Token → α → Prop) : Prop :=
  ∀ tokens value rest, parser.Reads tokens value rest →
    ∃ used, tokens = used ++ rest ∧ derives used value

/-- Up to a number of tokens, what is derived is read, unless a token behind it
could extend it. -/
def Complete (parser : Parser α) (limit : Nat) (extending : List Kind)
    (derives : List Token → α → Prop) : Prop :=
  ∀ used value rest, derives used value → used.length ≤ limit → Stops extending rest →
    parser.Reads (used ++ rest) value rest

end Parser

end Lox.Syntax
