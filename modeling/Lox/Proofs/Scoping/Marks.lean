import Lox.Scope

/-! What a program says about names, in the order in which it is resolved.

A tree leaves marks where a scope begins or ends, where a name is declared or used and where
a function returns. Their order is that of the text, but for the last clause of a `for`
loop, which stands behind the body; neither of these two declares a name in a scope that
is around the other. Which scope a mark stands in and whether a name is declared before
a use are told by the positions of the marks.
-/

set_option autoImplicit false

namespace Lox

/-- A use carries its distance and the variable in whose initializer it stands. -/
inductive Mark where
  | enter (function : Bool)
  | leave
  | declare (name : Token)
  | use (assigned : Bool) (name : Token) (distance : Option Nat) (own : Option Token)
  | ret (keyword : Token)

namespace Mark

/-- How many scopes are open behind a mark, which can only leave a scope that was opened. -/
def shift : Mark → Nat → Option Nat
  | .enter _, depth => some (depth + 1)
  | .leave, 0 => none
  | .leave, depth + 1 => some depth
  | .declare _, depth | .use .., depth | .ret _, depth => some depth

def recorded? : Mark → Option LocalUse
  | .use assigned name (some distance) _ => some ⟨assigned, name, distance⟩
  | _ => none

end Mark

mutual

/-- The marks of an expression, which may stand in the initializer of a variable. -/
def Expr.marks (own : Option Token) : Expr → List Mark
  | .literal _ | .misplaced _ => []
  | .grouping inner => inner.marks own
  | .unary _ operand => operand.marks own
  | .binary left _ right | .logical left _ right => left.marks own ++ right.marks own
  | .reference name distance => [.use false name distance own]
  | .assign name value distance => value.marks own ++ [.use true name distance own]
  | .call callee _ arguments => callee.marks own ++ marksIn own arguments

def Expr.marksIn (own : Option Token) : List Expr → List Mark
  | [] => []
  | first :: others => first.marks own ++ marksIn own others

end

mutual

/-- The marks of a statement. A function has one scope for its parameters and its body. -/
def Stmt.marks : Stmt → List Mark
  | .expression inner | .print inner => inner.marks none
  | .varDecl name none => [.declare name]
  | .varDecl name (some initializer) => .declare name :: initializer.marks (some name)
  | .block body => .enter false :: (marksIn body ++ [.leave])
  | .conditional condition yes none => condition.marks none ++ yes.marks
  | .conditional condition yes (some no) => condition.marks none ++ (yes.marks ++ no.marks)
  | .loop condition body => condition.marks none ++ body.marks
  | .funDecl name params body =>
    .declare name :: .enter true :: (params.map .declare ++ marksIn body ++ [.leave])
  | .ret keyword none => [.ret keyword]
  | .ret keyword (some value) => .ret keyword :: value.marks none
  | .misplaced _ => []

def Stmt.marksIn : List Stmt → List Mark
  | [] => []
  | first :: others => first.marks ++ marksIn others

end

namespace Mark

def opened (marks : List Mark) : Option Nat :=
  marks.foldl (fun depth mark => depth.bind mark.shift) (some 0)

def Stands (marks : List Mark) (distance : Nat) (earlier : List Mark) (mark : Mark) : Prop :=
  ∃ later, marks = earlier ++ mark :: later ∧ opened later = some distance

/-- A scope, which is not the top level, declares a name before the end. -/
def Declares (marks : List Mark) (name : String) (distance : Nat) : Prop :=
  ∃ earlier token, Stands marks distance earlier (.declare token) ∧ token.lexeme = name ∧
    opened earlier ≠ some 0

def Nearest (marks : List Mark) (name : String) (distance : Nat) : Prop :=
  Declares marks name distance ∧ ∀ nearer < distance, ¬ Declares marks name nearer

def Opens (marks : List Mark) (distance : Nat) (function : Bool) : Prop :=
  ∃ earlier, Stands marks distance earlier (.enter function)

/-- The mark behind some others is an error: it reads a local variable in its own initializer,
or returns outside all functions. -/
inductive Misuse (before : List Mark) : Mark → Report → Prop where
  | ownInitializer {name own : Token} {distance : Option Nat} :
      own.lexeme = name.lexeme → opened before ≠ some 0 →
      Misuse before (.use false name distance (some own))
        (.atToken name "Can't read local variable in its own initializer.")
  | topLevelReturn {keyword : Token} :
      (∀ distance, ¬ Opens before distance true) →
      Misuse before (.ret keyword) (.atToken keyword "Can't return from top-level code.")

/-- The reports of marks behind others: one for each error, in order. -/
inductive Reported : List Mark → List Mark → List Report → Prop where
  | nil {before : List Mark} : Reported before [] []
  | fault {before marks : List Mark} {mark : Mark} {report : Report} {reports : List Report} :
      Misuse before mark report → Reported (before ++ [mark]) marks reports →
      Reported before (mark :: marks) (report :: reports)
  | quiet {before marks : List Mark} {mark : Mark} {reports : List Report} :
      (∀ report, ¬ Misuse before mark report) → Reported (before ++ [mark]) marks reports →
      Reported before (mark :: marks) reports

/-- Each use among marks behind others has the distance of the nearest declaration. -/
def Addressed (before marks : List Mark) : Prop :=
  ∀ earlier assigned name distance own later,
    marks = earlier ++ .use assigned name distance own :: later →
    ∀ scopes, distance = some scopes ↔ Nearest (before ++ earlier) name.lexeme scopes

variable {marks before first second : List Mark} {mark last : Mark} {name : String}

theorem opened_concat (marks : List Mark) (last : Mark) :
    opened (marks ++ [last]) = (opened marks).bind last.shift := by
  rw [opened, List.foldl_append]
  rfl

theorem stands_concat {distance : Nat} {earlier : List Mark} :
    Stands (marks ++ [last]) distance earlier mark ↔
      (distance = 0 ∧ earlier = marks ∧ mark = last) ∨
        ∃ inner, Stands marks inner earlier mark ∧ last.shift inner = some distance := by
  constructor
  · rintro ⟨later, split, open_⟩
    rcases List.eq_nil_or_concat later with rfl | ⟨later, final, rfl⟩
    · obtain ⟨rfl, same⟩ := List.append_inj' split rfl
      cases same
      cases open_
      exact .inl ⟨rfl, rfl, rfl⟩
    · rw [List.concat_eq_append] at split open_
      rw [← List.cons_append, ← List.append_assoc] at split
      obtain ⟨rfl, same⟩ := List.append_inj' split rfl
      cases same
      rw [opened_concat] at open_
      obtain ⟨inner, openInner, shifted⟩ := Option.bind_eq_some_iff.mp open_
      exact .inr ⟨inner, ⟨later, rfl, openInner⟩, shifted⟩
  · rintro (⟨rfl, rfl, rfl⟩ | ⟨inner, ⟨later, rfl, openInner⟩, shifted⟩)
    · exact ⟨[], rfl, rfl⟩
    · refine ⟨later ++ [last], by simp, ?_⟩
      rw [opened_concat, openInner]
      exact shifted

theorem declares_concat {distance : Nat} :
    Declares (marks ++ [last]) name distance ↔
      (distance = 0 ∧ (∃ token, last = .declare token ∧ token.lexeme = name) ∧
        opened marks ≠ some 0) ∨
        ∃ inner, Declares marks name inner ∧ last.shift inner = some distance := by
  constructor
  · rintro ⟨earlier, token, stands, same, local_⟩
    rcases stands_concat.mp stands with ⟨rfl, rfl, rfl⟩ | ⟨inner, stands, shifted⟩
    · exact .inl ⟨rfl, ⟨token, rfl, same⟩, local_⟩
    · exact .inr ⟨inner, ⟨earlier, token, stands, same, local_⟩, shifted⟩
  · rintro (⟨rfl, ⟨token, rfl, same⟩, local_⟩ | ⟨inner, ⟨earlier, token, stands, same, local_⟩, shifted⟩)
    · exact ⟨marks, token, stands_concat.mpr (.inl ⟨rfl, rfl, rfl⟩), same, local_⟩
    · exact ⟨earlier, token, stands_concat.mpr (.inr ⟨inner, stands, shifted⟩), same, local_⟩

theorem opens_concat {distance : Nat} {function : Bool} :
    Opens (marks ++ [last]) distance function ↔
      (distance = 0 ∧ last = .enter function) ∨
        ∃ inner, Opens marks inner function ∧ last.shift inner = some distance := by
  constructor
  · rintro ⟨earlier, stands⟩
    rcases stands_concat.mp stands with ⟨rfl, rfl, same⟩ | ⟨inner, stands, shifted⟩
    · exact .inl ⟨rfl, same.symm⟩
    · exact .inr ⟨inner, ⟨earlier, stands⟩, shifted⟩
  · rintro (⟨rfl, rfl⟩ | ⟨inner, ⟨earlier, stands⟩, shifted⟩)
    · exact ⟨marks, stands_concat.mpr (.inl ⟨rfl, rfl, rfl⟩)⟩
    · exact ⟨earlier, stands_concat.mpr (.inr ⟨inner, stands, shifted⟩)⟩

theorem shift_leave {inner outer : Nat} : leave.shift inner = some outer ↔ inner = outer + 1 := by
  cases inner <;> simp [shift]

theorem declares_leave {distance : Nat} :
    Declares (marks ++ [.leave]) name distance ↔ Declares marks name (distance + 1) := by
  simp [declares_concat, shift_leave]

theorem opens_leave {distance : Nat} {function : Bool} :
    Opens (marks ++ [.leave]) distance function ↔ Opens marks (distance + 1) function := by
  simp [opens_concat, shift_leave]

theorem declares_declare {token : Token} {distance : Nat} :
    Declares (marks ++ [.declare token]) name distance ↔
      (distance = 0 ∧ token.lexeme = name ∧ opened marks ≠ some 0) ∨
        Declares marks name distance := by
  simp [declares_concat, shift]

theorem opens_declare {token : Token} {distance : Nat} {function : Bool} :
    Opens (marks ++ [.declare token]) distance function ↔ Opens marks distance function := by
  simp [opens_concat, shift]

def Passive : Mark → Prop
  | .use .. | .ret _ => True
  | .enter _ | .leave | .declare _ => False

theorem Passive.shift_eq (passive : last.Passive) (depth : Nat) : last.shift depth = some depth := by
  cases last with
  | use _ _ _ _ => rfl
  | ret _ => rfl
  | _ => cases passive

theorem Passive.opened_concat (passive : last.Passive) : opened (marks ++ [last]) = opened marks := by
  rw [Mark.opened_concat, funext passive.shift_eq]
  exact Option.bind_fun_some _

theorem Passive.declares_concat (passive : last.Passive) {distance : Nat} :
    Declares (marks ++ [last]) name distance ↔ Declares marks name distance := by
  have other : ¬ ∃ token, last = .declare token ∧ token.lexeme = name := by
    rintro ⟨token, rfl, _⟩
    cases passive
  simp [Mark.declares_concat, passive.shift_eq, other]

theorem Passive.opens_concat (passive : last.Passive) {distance : Nat} {function : Bool} :
    Opens (marks ++ [last]) distance function ↔ Opens marks distance function := by
  have other : last ≠ .enter function := by
    rintro rfl
    cases passive
  simp [Mark.opens_concat, passive.shift_eq, other]

theorem not_stands_nil {distance : Nat} {earlier : List Mark} : ¬ Stands [] distance earlier mark := by
  rintro ⟨later, split, _⟩
  simp at split

theorem Reported.append {reports more : List Report} (reported : Reported before first reports)
    (also : Reported (before ++ first) second more) :
    Reported before (first ++ second) (reports ++ more) := by
  induction reported with
  | nil =>
    rw [List.append_nil] at also
    exact also
  | fault misuse _ ih =>
    rw [← List.append_cons] at ih
    exact .fault misuse (ih also)
  | quiet quiet _ ih =>
    rw [← List.append_cons] at ih
    exact .quiet quiet (ih also)

/-- A mark at which nothing is recorded and nothing can be wrong. -/
def Silent : Mark → Prop
  | .enter _ | .leave | .declare _ => True
  | .use .. | .ret _ => False

theorem Silent.not_misuse {report : Report} (silent : mark.Silent) : ¬ Misuse before mark report := by
  rintro (_ | _) <;> cases silent

theorem reported_single {report : Report} (misuse : Misuse before mark report) :
    Reported before [mark] [report] :=
  .fault misuse .nil

theorem reported_none (quiet : ∀ report, ¬ Misuse before mark report) : Reported before [mark] [] :=
  .quiet quiet .nil

theorem addressed_nil : Addressed before [] := by
  intro earlier assigned name distance own later split
  simp at split

theorem addressed_use {assigned : Bool} {token : Token} {distance : Option Nat} {own : Option Token}
    (nearest : ∀ scopes, distance = some scopes ↔ Nearest before token.lexeme scopes) :
    Addressed before [.use assigned token distance own] := by
  intro earlier assigned name distance own later split
  cases earlier with
  | nil =>
    cases split
    rw [List.append_nil]
    exact nearest
  | cons mark earlier => simp at split

theorem addressed_single (other : ∀ assigned name distance own, mark ≠ .use assigned name distance own) :
    Addressed before [mark] := by
  intro earlier assigned name distance own later split
  cases earlier with
  | nil =>
    cases split
    exact absurd rfl (other _ _ _ _)
  | cons mark earlier => simp at split

theorem Addressed.append (addressed : Addressed before first)
    (also : Addressed (before ++ first) second) : Addressed before (first ++ second) := by
  intro earlier assigned name distance own later split
  rcases List.append_eq_append_iff.mp split with ⟨middle, rfl, rest⟩ | ⟨middle, rfl, rest⟩
  · rw [← List.append_assoc]
    exact also middle assigned name distance own later rest
  · cases middle with
    | nil =>
      have here := also [] assigned name distance own later rest.symm
      rw [List.append_nil, List.append_nil] at here
      exact here
    | cons mark middle =>
      cases rest
      exact addressed earlier assigned name distance own middle rfl

end Mark

end Lox
