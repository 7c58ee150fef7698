import Lox.Eval.Basic
import Lox.Scope

/-! Running trees on their own, outside a session.

The errors of the scopes are reported but do not keep the statements from being
run.
-/

set_option autoImplicit false

namespace Lox

/-- Run statements, after resolving them if asked to; a runtime error is reported
and ends the run. -/
def runReported (rules : Rules) (fuel : Nat) (resolve : Bool) (statements : List Stmt)
    (machine : Machine) : Outcome Unit × List Report :=
  let resolution := if resolve then resolveProgram statements else .ok statements [] []
  match resolution with
  | .malformed shape errors =>
    (.failed (.fault (.malformed shape)) machine, errors.map ScopeError.report)
  | .ok statements _ errors =>
    let reports := errors.map ScopeError.report
    match interpret rules fuel statements machine with
    | .failed (.runtime error) machine => (.done () machine, reports ++ [error.report])
    | outcome => (outcome, reports)

end Lox
