import Lox.Proofs.Run.Point

/-! Each failure of a run is raised at a point that the run comes to. -/

set_option autoImplicit false

namespace Lox.Point

variable {rules : Rules} {fuel : Nat} {machine : Machine} {point next : Point} {failure : Failure}

theorem Blamed.of_starts (starts : Starts rules point next) (blamed : Blamed rules next failure) :
    Blamed rules point failure := by
  obtain ⟨culprit, reaches, raises⟩ := blamed
  exact ⟨culprit, .head starts reaches, raises⟩

theorem Blamed.of_raises (raises : Raises rules point failure) : Blamed rules point failure :=
  ⟨point, .refl, raises⟩

def BlamesWith (rules : Rules) (fuel : Nat) : Prop :=
  ∀ (task : Task) (machine : Machine),
    (task.run rules fuel machine).FailsWith (Blamed rules ⟨task, fuel, machine⟩)

namespace BlamesWith

theorem pass (ih : BlamesWith rules fuel) {task : Task}
    (starts : Starts rules point ⟨task, fuel, machine⟩) :
    (task.run rules fuel machine).FailsWith (Blamed rules point) :=
  (ih task machine).mono fun _ => .of_starts starts

theorem evaluate_succ (ih : BlamesWith rules fuel) (expr : Expr) (machine : Machine) :
    (Lox.evaluate rules (fuel + 1) expr machine).FailsWith
      (Blamed rules ⟨.evaluate expr, fuel + 1, machine⟩) := by
  cases expr with
  | literal value => exact OutcomeIn.failsWith_done
  | grouping inner => exact ih.pass .grouping
  | unary operator operand =>
    refine (ih.pass .unary).bind fun value after ran => ?_
    exact OutcomeIn.failsWith_ofExcept fun failure error => .of_raises (.unary ran error)
  | binary left operator right =>
    refine (ih.pass .binaryLeft).bind fun value middle first => ?_
    refine (ih.pass (.binaryRight first)).bind fun value after second => ?_
    exact OutcomeIn.failsWith_ofExcept fun failure error => .of_raises (.binary first second error)
  | logical left operator right =>
    refine (ih.pass .logicalLeft).bind fun value middle ran => ?_
    split
    · exact OutcomeIn.failsWith_done
    next undecided => exact ih.pass (.logicalRight ran (Bool.eq_false_iff.mpr undecided))
  | reference name distance =>
    exact OutcomeIn.failsWith_ofExcept fun failure error => .of_raises (.reference error)
  | assign name value distance =>
    refine (ih.pass .assigned).bind fun result after ran => ?_
    split
    · exact OutcomeIn.failsWith_done
    next failure error =>
      intro other state same
      cases same
      exact .of_raises (.assign ran error)
  | call callee paren arguments =>
    refine (ih.pass .callee).bind fun value middle first => ?_
    refine (ih.pass (.arguments first)).bind fun values after second => ?_
    exact ih.pass (.call first second)
  | misplaced node =>
    intro other state same
    cases same
    exact .of_raises .misplacedExpr

theorem evaluateAll_succ (ih : BlamesWith rules fuel) (exprs : List Expr) (machine : Machine) :
    (Lox.evaluateAll rules (fuel + 1) exprs machine).FailsWith
      (Blamed rules ⟨.evaluateAll exprs, fuel + 1, machine⟩) := by
  cases exprs with
  | nil => exact OutcomeIn.failsWith_done
  | cons first others =>
    refine (ih.pass .firstExpr).bind fun value middle ran => ?_
    refine (ih.pass (.otherExprs ran)).bind fun values after rest => ?_
    exact OutcomeIn.failsWith_done

theorem call_succ (ih : BlamesWith rules fuel) (callee : Value) (arguments : List Value)
    (line : Int) (machine : Machine) :
    (Lox.call rules (fuel + 1) callee arguments line machine).FailsWith
      (Blamed rules ⟨.call callee arguments line, fuel + 1, machine⟩) := by
  obtain ⟨cause, refused, called⟩ | ⟨function, rfl, accepted, called⟩ | ⟨rfl, _, called⟩ :=
    call_cases rules fuel callee arguments line machine
  · rw [called]
    intro failure state same
    cases same
    exact .of_raises (.refused refused)
  · rw [called]
    refine (OutcomeIn.FailsWith.bind (ih.pass (.body accepted)) ?_).mapState _
    exact fun completion after ran => OutcomeIn.failsWith_done
  · rw [called]
    exact OutcomeIn.failsWith_done

theorem execute_succ (ih : BlamesWith rules fuel) (stmt : Stmt) (machine : Machine) :
    (Lox.execute rules (fuel + 1) stmt machine).FailsWith
      (Blamed rules ⟨.execute stmt, fuel + 1, machine⟩) := by
  cases stmt with
  | expression inner =>
    exact (ih.pass .expression).bind fun value after ran => OutcomeIn.failsWith_done
  | print inner =>
    exact (ih.pass .print).bind fun value after ran => OutcomeIn.failsWith_done
  | varDecl name initializer =>
    cases initializer with
    | none => exact OutcomeIn.failsWith_done
    | some initializer =>
      exact (ih.pass .initializer).bind fun value after ran => OutcomeIn.failsWith_done
  | block body => exact (ih.pass .block).mapState _
  | conditional condition yes no =>
    refine (ih.pass .condition).bind fun value middle ran => ?_
    split
    next holds => exact ih.pass (.yes ran holds)
    next fails =>
      cases no with
      | none => exact OutcomeIn.failsWith_done
      | some no => exact ih.pass (.no ran (Bool.eq_false_iff.mpr fails))
  | loop condition body => exact ih.pass .loop
  | funDecl name params body => exact OutcomeIn.failsWith_done
  | ret keyword value =>
    cases value with
    | none => exact OutcomeIn.failsWith_done
    | some value =>
      exact (ih.pass .returned).bind fun value after ran => OutcomeIn.failsWith_done
  | misplaced node =>
    intro other state same
    cases same
    exact .of_raises .misplacedStmt

theorem executeAll_succ (ih : BlamesWith rules fuel) (stmts : List Stmt) (machine : Machine) :
    (Lox.executeAll rules (fuel + 1) stmts machine).FailsWith
      (Blamed rules ⟨.executeAll stmts, fuel + 1, machine⟩) := by
  cases stmts with
  | nil => exact OutcomeIn.failsWith_done
  | cons first others =>
    refine (ih.pass .firstStmt).bind fun completion middle ran => ?_
    cases completion with
    | normal => exact ih.pass (.otherStmts ran)
    | returned value => exact OutcomeIn.failsWith_done

theorem executeLoop_succ (ih : BlamesWith rules fuel) (condition : Expr) (body : Stmt)
    (machine : Machine) :
    (Lox.executeLoop rules (fuel + 1) condition body machine).FailsWith
      (Blamed rules ⟨.executeLoop condition body, fuel + 1, machine⟩) := by
  refine (ih.pass .loopCondition).bind fun value middle ran => ?_
  split
  next holds =>
    refine (ih.pass (.loopBody ran holds)).bind fun completion later went => ?_
    cases completion with
    | normal => exact ih.pass (.loopAgain ran holds went)
    | returned value => exact OutcomeIn.failsWith_done
  next => exact OutcomeIn.failsWith_done

end BlamesWith

/-- Whatever fails, a point that the run came to raised the failure. -/
theorem blamesWith (rules : Rules) (fuel : Nat) : BlamesWith rules fuel := by
  induction fuel with
  | zero =>
    intro task machine failure state same
    cases task <;> cases same
  | succ fuel ih =>
    intro task machine
    cases task with
    | evaluate expr => exact ih.evaluate_succ expr machine
    | evaluateAll exprs => exact ih.evaluateAll_succ exprs machine
    | call callee arguments line => exact ih.call_succ callee arguments line machine
    | execute stmt => exact ih.execute_succ stmt machine
    | executeAll stmts => exact ih.executeAll_succ stmts machine
    | executeLoop condition body => exact ih.executeLoop_succ condition body machine

end Lox.Point
