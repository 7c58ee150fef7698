import Lox.Proofs.Lines.Joined
import Lox.Proofs.Run.Activation

/-! Where a return leads.

Accepted statements hold no return outside of functions, so the top level executes them one
after the other up to its end or to the first that fails. A call ends at the first return
that its own activation comes to, with the value of that, and does nothing behind it; without
a return it ends behind its body and gives nil.
-/

set_option autoImplicit false

namespace Lox

/-- A constant or a function. Values are of no other kind, by their type: completions are kept
apart from them, so that they cannot be bound, passed or printed. -/
def ValueIn.IsData {ε : Type} (value : ValueIn ε) : Prop :=
  (∃ constant, value = .literal constant) ∨ (∃ function, value = .closure function) ∨
    ∃ function, value = .native function

theorem ValueIn.isData {ε : Type} (value : ValueIn ε) : value.IsData := by
  cases value with
  | literal constant => exact .inl ⟨constant, rfl⟩
  | closure function => exact .inr (.inl ⟨function, rfl⟩)
  | native function => exact .inr (.inr ⟨function, rfl⟩)

/-- All along a run, frames bind, calls take and `print` shows nothing but data. The types say as
much; what a run does with completions is told by the other results of this module. -/
structure Point.OnlyData (rules : Rules) (entry : Point) : Prop where
  bound : ∀ outer state, Passes rules entry outer state →
    ∀ frame name value, state.store.value? frame name = some value → value.IsData
  taken : ∀ callee arguments line fuel machine,
    Reaches rules entry ⟨.call callee arguments line, fuel, machine⟩ →
    ∀ value ∈ callee :: arguments, value.IsData
  shown : ∀ inner fuel machine value after,
    Reaches rules entry ⟨.execute (.print inner), fuel + 1, machine⟩ →
    evaluate rules fuel inner machine = .done value after → value.IsData

theorem Point.onlyData (rules : Rules) (entry : Point) : entry.OnlyData rules :=
  ⟨fun _ _ _ _ _ value _ => value.isData, fun _ _ _ _ _ _ value _ => value.isData,
    fun _ _ _ value _ _ _ => value.isData⟩

/-- Statements are executed one after the other, each to its normal end. -/
inductive InTurn (rules : Rules) : List Stmt → Machine → Machine → Prop where
  | none {machine : Machine} : InTurn rules [] machine machine
  | next {first : Stmt} {others : List Stmt} {machine middle after : Machine} {fuel : Nat} :
      execute rules fuel first machine = .done .normal middle → InTurn rules others middle after →
      InTurn rules (first :: others) machine after

/-- Statements are executed one after the other up to one that fails. -/
inductive FailsInTurn (rules : Rules) : List Stmt → Machine → Failure → Machine → Prop where
  | here {first : Stmt} {others : List Stmt} {machine after : Machine} {fuel : Nat}
      {failure : Failure} :
      execute rules fuel first machine = .failed failure after →
      FailsInTurn rules (first :: others) machine failure after
  | next {first : Stmt} {others : List Stmt} {machine middle after : Machine} {fuel : Nat}
      {failure : Failure} :
      execute rules fuel first machine = .done .normal middle →
      FailsInTurn rules others middle failure after →
      FailsInTurn rules (first :: others) machine failure after

variable {rules : Rules} {statements resolved : List Stmt} {uses : List LocalUse}

/-- Statements without returns of their own are all executed, unless one fails or the fuel runs
out. -/
theorem executeAll_inTurn : ∀ {stmts : List Stmt} {fuel : Nat} {machine : Machine},
    Stmt.AllReturnInside false stmts →
    match executeAll rules fuel stmts machine with
    | .done _ after => InTurn rules stmts machine after
    | .failed failure after => FailsInTurn rules stmts machine failure after
    | .cut _ => True
  | _, 0, _, _ => trivial
  | [], _ + 1, _, _ => .none
  | first :: others, fuel + 1, machine, inside => by
    -- Outside of functions no statement stands that returns, so each one ends normally.
    have normal := (normalWith rules fuel).execute first machine inside.1
    rw [executeAll]
    cases answer : execute rules fuel first machine with
    | done completion middle =>
      rw [answer] at normal
      obtain rfl : completion = .normal := normal
      have behind := @executeAll_inTurn others fuel middle inside.2
      simp only [OutcomeIn.bind]
      cases rest : executeAll rules fuel others middle with
      | done completion after =>
        rw [rest] at behind
        exact .next answer behind
      | failed failure after =>
        rw [rest] at behind
        exact .next answer behind
      | exhausted => trivial
    | failed failure after => exact .here answer
    | exhausted => trivial

theorem Stmt.returnsInside_of_mem {inFunction : Bool} : ∀ {stmts : List Stmt} {stmt : Stmt},
    AllReturnInside inFunction stmts → stmt ∈ stmts → stmt.ReturnsInside inFunction
  | _ :: _, _, inside, .head _ => inside.1
  | _ :: _, _, inside, .tail _ member => returnsInside_of_mem inside.2 member

/-- A call that is done has come to the end of its activation, and gives back its frame and its
depth. -/
theorem Activation.over_of_call {fuel : Nat} {function : Closure} {arguments : List Value} {line : Int}
    {machine after : Machine} {value : Value}
    (called : call rules fuel (.closure function) arguments line machine = .done value after) :
    ∃ stop last, Turns rules ⟨function.body.map .stmt, machine.enterCall function arguments⟩ stop ∧
      Over rules stop value last ∧ after = last.returnTo machine.frame machine.depth := by
  cases fuel with
  | zero => cases called
  | succ fuel =>
    have follows := (followsWith rules fuel).executeAll function.body
      (machine.enterCall function arguments)
    cases accepted : rules.refusal? (.closure function) arguments.length machine.depth with
    | some cause =>
      rw [call_of_refused accepted] at called
      cases called
    | none =>
      rw [call_closure rules fuel line accepted] at called
      cases answer : executeAll rules fuel function.body (machine.enterCall function arguments) with
      | done completion inner =>
        rw [answer] at called follows
        cases called
        cases completion with
        | normal =>
          -- No return was met: the turns lead to where nothing is left to do.
          have turns := follows []
          rw [List.append_nil] at turns
          exact ⟨_, inner, turns, .runsOut, rfl⟩
        | returned value =>
          -- The turns lead to the return that ended the body.
          obtain ⟨stop, last, turns, returns, rfl⟩ := follows []
          rw [List.append_nil] at turns
          exact ⟨stop, last, turns, .returns returns, rfl⟩
      | failed failure inner => rw [answer] at called; cases called
      | exhausted => rw [answer] at called; cases called

/-- From any state, an accepted program never returns at its top level: it ends when all its
statements are executed, or with the failure of one. All that is stored, passed and printed on the
way is data. And a call that is done gives the value of the first return that its own activation comes
to, which is the last thing the activation comes to, or nil if it comes to none. -/
theorem returns_end_calls (accepted : resolveProgram statements = .ok resolved uses [])
    (rules : Rules) :
    (∀ stmt ∈ resolved, ∀ fuel machine value after,
      execute rules fuel stmt machine ≠ .done (.returned value) after) ∧
    (∀ fuel machine,
      match interpret rules fuel resolved machine with
      | .done _ after => ∃ last, InTurn rules resolved machine last ∧ after = last.reset
      | .failed failure after =>
        ∃ last, FailsInTurn rules resolved machine failure last ∧ after = last.reset
      | .cut _ => True) ∧
    (∀ fuel machine, Point.OnlyData rules ⟨.executeAll resolved, fuel, machine⟩) ∧
    ∀ fuel function arguments line machine value after,
      call rules fuel (.closure function) arguments line machine = .done value after →
      ∃ stop last,
        let start : Activation := ⟨function.body.map .stmt, machine.enterCall function arguments⟩
        Activation.Turns rules start stop ∧
        Activation.Over rules stop value last ∧ after = last.returnTo machine.frame machine.depth ∧
          ∀ other, Activation.Turns rules start other → Activation.Turns rules other stop := by
  have inside := resolveProgram_returnsInside statements _ _ accepted
  refine ⟨?_, ?_, ?_, ?_⟩
  · intro stmt member fuel machine value after returned
    have normal := (normalWith rules fuel).execute stmt machine (Stmt.returnsInside_of_mem inside member)
    rw [returned] at normal
    cases normal
  · intro fuel machine
    have ends := @executeAll_inTurn rules resolved fuel machine inside
    unfold interpret
    cases answer : executeAll rules fuel resolved machine with
    | done completion last => exact ⟨last, by simpa [answer] using ends, rfl⟩
    | failed failure last => exact ⟨last, by simpa [answer] using ends, rfl⟩
    | exhausted => trivial
  · exact fun fuel machine => Point.onlyData rules _
  · intro fuel function arguments line machine value after called
    obtain ⟨stop, last, turns, isOver, same⟩ := Activation.over_of_call called
    exact ⟨stop, last, turns, isOver, same, fun other also => isOver.turns turns also⟩

/-- The body of a function that returns out of an endless loop, in front of a statement that
prints. -/
def returnFromLoop : List Stmt :=
  [.loop (.literal (.bool true)) (.block [.ret ⟨.returnWord, "return", none, 1⟩ none]),
    .print (.literal .nil)]

/-- The call does end, at the return and before anything is printed. -/
theorem returns_end_calls_fromLoop :
    let name : Token := ⟨.identifier, "f", none, 1⟩
    let rules : Rules := ⟨none, .lexical, fun _ => 0⟩
    resolveProgram [.funDecl name [] returnFromLoop] =
        .ok [.funDecl name [] returnFromLoop] [] [] ∧
      ∃ after stop last, call rules 9 (.closure ⟨0, name, [], returnFromLoop, 0⟩) [] 1
          Machine.initial = .done .nil after ∧
        Activation.Turns rules ⟨returnFromLoop.map .stmt,
          Machine.initial.enterCall ⟨0, name, [], returnFromLoop, 0⟩ []⟩ stop ∧
        Activation.Over rules stop .nil last ∧ after.printed = #[] := by
  intro name rules
  have accepted : resolveProgram [.funDecl name [] returnFromLoop] =
      .ok [.funDecl name [] returnFromLoop] [] [] := rfl
  obtain ⟨after, called, quiet⟩ : ∃ after, call rules 9 (.closure ⟨0, name, [], returnFromLoop, 0⟩)
      [] 1 Machine.initial = .done .nil after ∧ after.printed = #[] := ⟨_, rfl, rfl⟩
  obtain ⟨stop, last, turns, isOver, _⟩ := (returns_end_calls accepted rules).2.2.2 _ _ _ _ _ _ _ called
  exact ⟨accepted, after, stop, last, called, turns, isOver, quiet⟩

end Lox
