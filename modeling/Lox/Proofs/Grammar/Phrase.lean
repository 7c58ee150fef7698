import Lox.Proofs.Grammar.Basic

/-! How phrases, statements and declarations begin, and what a phrase can be. -/

set_option autoImplicit false

namespace Lox.Grammar

open Token (Kind)

namespace Level

def starters : Level → List Kind
  | .primary | .call =>
    [.falseWord, .trueWord, .nilWord, .number, .string, .identifier, .leftParen]
  | _ =>
    [.bang, .minus, .falseWord, .trueWord, .nilWord, .number, .string, .identifier, .leftParen]

theorem starters_subset {level inner : Level} (tighter : level.inner? = some inner) :
    inner.starters ⊆ level.starters := by
  cases level <;> cases tighter <;> simp [starters]

end Level

theorem Separated.head {α : Type} {derives : List Token → α → Prop} {kinds : List Kind}
    {tokens : List Token} {items : List α} (separated : Separated derives tokens items)
    (item : ∀ {tokens : List Token} {value : α}, derives tokens value →
      ∃ first rest, tokens = first :: rest ∧ first.kind ∈ kinds) :
    ∃ first rest, tokens = first :: rest ∧ first.kind ∈ kinds := by
  cases separated with
  | last derived => exact item derived
  | more derived =>
    obtain ⟨first, rest, rfl, kind⟩ := item derived
    exact ⟨first, _, rfl, kind⟩

namespace Phrase

theorem head : ∀ {level : Level} {tokens : List Token} {expr : Expr}, Phrase level tokens expr →
    ∃ first rest, tokens = first :: rest ∧ first.kind ∈ level.starters
  | _, _, _, .constant same => by
    refine ⟨_, [], rfl, ?_⟩
    unfold constant? at same
    split at same <;> simp_all [Level.starters]
  | _, _, _, .name kind => ⟨_, [], rfl, by simp [kind, Level.starters]⟩
  | _, _, _, .group opening _ _ => ⟨_, _, rfl, by simp [opening, Level.starters]⟩
  | _, _, _, .call callee _ _ _ => by
    obtain ⟨first, rest, rfl, kind⟩ := callee.head
    exact ⟨first, _, rfl, kind⟩
  | _, _, _, .unary kind _ =>
    ⟨_, _, rfl, by rcases kind with kind | kind <;> simp [kind, Level.starters]⟩
  | _, _, _, .binary _ _ left _ => by
    obtain ⟨first, rest, rfl, kind⟩ := left.head
    exact ⟨first, _, rfl, kind⟩
  | _, _, _, .assign kind _ _ => ⟨_, _, rfl, by simp [kind, Level.starters]⟩
  | _, _, _, .tighter isInner inner => by
    obtain ⟨first, rest, rfl, kind⟩ := inner.head
    exact ⟨first, rest, rfl, Level.starters_subset isInner kind⟩

theorem length_pos {level : Level} {tokens : List Token} {expr : Expr}
    (derived : Phrase level tokens expr) : 0 < tokens.length := by
  obtain ⟨first, rest, rfl, _⟩ := derived.head
  simp

theorem eq_name {token : Token} {distance : Option Nat} :
    ∀ {level : Level} {tokens : List Token} {expr : Expr}, Phrase level tokens expr →
      expr = .reference token distance → tokens = [token] ∧ token.kind = .identifier
  | _, _, _, .name kind, same => by cases same; exact ⟨rfl, kind⟩
  | _, _, _, .tighter _ inner, same => inner.eq_name same
  | level, _, _, .binary .., same => by cases level <;> cases same
  | _, _, _, .constant _, same | _, _, _, .group .., same | _, _, _, .call .., same
  | _, _, _, .unary .., same | _, _, _, .assign .., same => by cases same

/-- A phrase that begins with an operator is a unary one, and any other is a call. -/
theorem unary_cases {token : Token} {tokens : List Token} {expr : Expr}
    (derived : Phrase .unary (token :: tokens) expr) :
    (∃ operand, expr = .unary token operand ∧ (token.kind = .bang ∨ token.kind = .minus) ∧
      Phrase .unary tokens operand) ∨
    (¬ (token.kind = .bang ∨ token.kind = .minus) ∧ Phrase .call (token :: tokens) expr) := by
  generalize same : token :: tokens = whole at derived
  cases derived with
  | unary kind derived => cases same; exact .inl ⟨_, rfl, kind, derived⟩
  | binary _ isOperator => simp [Level.operators] at isOperator
  | tighter tighter derived =>
    cases tighter
    cases same
    obtain ⟨first, rest, same, kind⟩ := derived.head
    cases same
    exact .inr ⟨by rintro (operator | operator) <;> simp [operator, Level.starters] at kind, derived⟩

/-- A primary expression is a phrase of every precedence of operations. -/
theorem of_primary {tokens : List Token} {expr : Expr} (derived : Phrase .primary tokens expr) :
    Phrase .disjunction tokens expr :=
  .tighter rfl <| .tighter rfl <| .tighter rfl <| .tighter rfl <| .tighter rfl <| .tighter rfl <|
    .tighter rfl <| .tighter rfl derived

end Phrase

theorem Closed.head {tokens : List Token} {expr : Expr} (closed : Closed tokens expr) :
    ∃ first rest, tokens = first :: rest ∧ first.kind ∈ Level.assignment.starters := by
  obtain ⟨derived, _⟩ := closed
  obtain ⟨first, rest, rfl, kind⟩ := derived.head
  exact ⟨first, _, rfl, kind⟩

theorem Variable.head {tokens : List Token} {stmt : Stmt} (derived : Variable tokens stmt) :
    ∃ word rest, tokens = word :: rest ∧ word.kind = .varWord := by
  cases derived with
  | bare isWord => exact ⟨_, _, rfl, isWord⟩
  | initialized isWord => exact ⟨_, _, rfl, isWord⟩

def Statement.starters : List Kind :=
  [.printWord, .returnWord, .leftBrace, .whileWord, .forWord, .ifWord] ++
    Level.assignment.starters

theorem Statement.head {dangling : Bool} {tokens : List Token} {stmt : Stmt}
    (derived : Statement dangling tokens stmt) :
    ∃ first rest, tokens = first :: rest ∧ first.kind ∈ Statement.starters := by
  cases derived with
  | expression closed =>
    obtain ⟨first, rest, rfl, kind⟩ := closed.head
    exact ⟨first, rest, rfl, List.mem_append_right _ kind⟩
  | _ => exact ⟨_, _, rfl, by simp [Statement.starters, *]⟩

def Declaration.starters : List Kind := [.funWord, .varWord] ++ Statement.starters

theorem Declaration.head {tokens : List Token} {stmt : Stmt} (derived : Declaration tokens stmt) :
    ∃ first rest, tokens = first :: rest ∧ first.kind ∈ Declaration.starters := by
  cases derived with
  | function => exact ⟨_, _, rfl, by simp [Declaration.starters, *]⟩
  | «variable» derived =>
    obtain ⟨word, rest, rfl, kind⟩ := derived.head
    exact ⟨word, rest, rfl, by simp [Declaration.starters, kind]⟩
  | statement derived =>
    obtain ⟨first, rest, rfl, kind⟩ := derived.head
    exact ⟨first, rest, rfl, List.mem_append_right _ kind⟩

theorem Declarations.length_le {tokens : List Token} {stmts : List Stmt}
    (derived : Declarations tokens stmts) : stmts.length ≤ tokens.length := by
  induction stmts generalizing tokens with
  | nil => exact Nat.zero_le _
  | cons stmt stmts ih =>
    cases derived with
    | more first more =>
      obtain ⟨token, rest, rfl, _⟩ := first.head
      have others := ih more
      simp only [List.length_cons, List.length_append]
      omega

end Lox.Grammar
