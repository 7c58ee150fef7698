import Lox.Proofs.Lines.Retelling
import Lox.Proofs.Session.Accounts

/-! Telling the lines of one text from all others.

A line is doubled, and one is added to it in the text in question. A run on such labels comes
to a label that tells its line and its text, and all that other lines in that text can
change is told by them.
-/

set_option autoImplicit false

namespace Lox

def otherLabel (line : Int) : Int := 2 * line

def ownLabel (line : Int) : Int := 2 * line + 1

/-- The line of a label, when the lines of the text in question are changed. -/
def lineOf (lines : Int → Int) (label : Int) : Int :=
  if label % 2 = 0 then label / 2 else lines (label / 2)

theorem lineOf_comp_otherLabel (lines : Int → Int) : lineOf lines ∘ otherLabel = id := by
  funext line
  simp [lineOf, otherLabel]

theorem lineOf_comp_ownLabel (lines : Int → Int) : lineOf lines ∘ ownLabel = lines := by
  funext line
  have odd : (2 * line + 1) % 2 = 1 := by omega
  have half : (2 * line + 1) / 2 = line := by omega
  simp [lineOf, ownLabel, odd, half]

variable {lines later : Int → Int}

theorem Machine.retell_retell (machine : Machine) (before earlier : Array String) :
    (machine.retell lines before).retell later earlier =
      machine.retell (later ∘ lines) (earlier ++ before) := by
  have values : ValueIn.relabel later ∘ ValueIn.relabel lines =
      (ValueIn.relabel (later ∘ lines) : Value → Value) := by
    funext value
    exact value.relabel_relabel
  simp only [retell, Store.map_map, values, Array.append_assoc]

theorem Machine.retell_id (machine : Machine) (before : Array String) :
    machine.retell id before = { machine with printed := before ++ machine.printed } := by
  have values : (ValueIn.relabel id : Value → Value) = id := by
    funext value
    exact value.relabel_id
  simp only [retell, values, Store.map_id]

/-- The account of a run of which a report stands on another line. -/
def Account.relabel (lines : Int → Int) (account : Account) : Account :=
  { account with reports := account.reports.map (Report.relabel lines) }

def Account.behind (lines : List String) (account : Account) : Account :=
  { account with lines := lines ++ account.lines }

namespace Machine

variable {rules : Rules} {fuel : Nat}

theorem account_retell (machine : Machine) (statements : List Stmt) :
    (machine.retell lines #[]).account rules fuel (Stmt.relabelAll lines statements) =
      ((machine.account rules fuel statements).1.relabel lines,
        (machine.account rules fuel statements).2.retell lines #[]) := by
  unfold account
  rw [← interpret_retell]
  cases interpret rules fuel statements machine with
  | done value after => simp [OutcomeIn.retell, Account.relabel, retell]
  | failed failure after =>
    cases failure <;>
      simp [OutcomeIn.retell, Account.relabel, retell, Failure.relabel, RuntimeError.report,
        Report.relabel]
  | exhausted => simp [OutcomeIn.retell, Account.relabel, retell]

theorem account_behind {machine after : Machine} {statements whole : List Stmt} {most : Nat}
    (same : interpret rules most whole machine = interpret rules fuel statements after) :
    (machine.account rules most whole).1 =
        ({ after with printed := #[] }.account rules fuel statements).1.behind
          after.printed.toList ∧
      (({ after with printed := #[] }.account rules fuel statements).1.ending ≠ .unfinished →
        (machine.account rules most whole).2 =
          ({ after with printed := #[] }.account rules fuel statements).2) := by
  have cleared : after = { after with printed := #[] }.retell id after.printed := by
    rw [retell_id, Array.append_empty]
  have told := @interpret_retell id after.printed rules fuel statements { after with printed := #[] }
  rw [← cleared, Stmt.relabelAll_id] at told
  unfold account
  rw [same, ← told]
  cases interpret rules fuel statements { after with printed := #[] } with
  | done value last => simp [OutcomeIn.retell, retell_id, Account.behind]
  | failed failure last =>
    cases failure <;>
      simp [OutcomeIn.retell, retell_id, Account.behind, Failure.relabel]
  | exhausted => simp [OutcomeIn.retell, retell_id, Account.behind]

/-- The report of a run tells whether it stands in the text in question. -/
theorem exists_account_origin (machine : Machine) (rules : Rules) (fuel : Nat)
    (statements : List Stmt) : ∃ (account : Account) (own : Bool), ∀ lines,
      (machine.account rules fuel statements).1.relabel (lineOf lines) =
        account.relabel (if own then lines else id) := by
  cases ran : interpret rules fuel statements machine with
  | done value after =>
    rw [account_of_done ran]
    exact ⟨_, false, fun lines => rfl⟩
  | failed failure after =>
    cases failure with
    | runtime error =>
      rw [account_of_runtime ran]
      refine ⟨⟨after.printed.toList, [.runtime (error.line / 2) error.cause.message],
        .finished .runtimeError⟩, decide (error.line % 2 ≠ 0), fun lines => ?_⟩
      by_cases even : error.line % 2 = 0 <;>
        simp [Account.relabel, Report.relabel, RuntimeError.report, lineOf, even]
    | fault fault =>
      rw [account_of_fault ran]
      exact ⟨_, false, fun lines => rfl⟩
  | @exhausted after =>
    rw [account_of_cut ran]
    exact ⟨_, false, fun lines => rfl⟩

end Machine

end Lox
