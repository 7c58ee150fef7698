import Lox.Eval.Basic
import Lox.Proofs.Scoping.Shape

/-! What operators and calls see of a value.

They do not look into the body or the environment of a closure, so they go along with
any change of these. The outline of a value is what all such changes leave.
-/

set_option autoImplicit false

namespace Lox

variable {ε δ : Type} {bodies : List Stmt → List Stmt} {envs : ε → δ}

def ClosureIn.map (bodies : List Stmt → List Stmt) (envs : ε → δ) (function : ClosureIn ε) :
    ClosureIn δ :=
  ⟨function.id, function.name, function.params, bodies function.body, envs function.env⟩

def ValueIn.map (bodies : List Stmt → List Stmt) (envs : ε → δ) : ValueIn ε → ValueIn δ
  | .literal value => .literal value
  | .closure function => .closure (function.map bodies envs)
  | .native function => .native function

/-- A value without environments and distances. -/
def ValueIn.outline (value : ValueIn ε) : ValueIn Unit := value.map Stmt.eraseAll fun _ => ()

/-- What operators, calls and `print` see of a value. -/
inductive Face where
  | literal (value : Literal)
  | closure (id : Nat) (name : String) (arity : Nat)
  | native (function : Native)

namespace ValueIn

def face : ValueIn ε → Face
  | .literal value => .literal value
  | .closure function => .closure function.id function.name.lexeme function.params.length
  | .native function => .native function

@[simp] theorem face_map (value : ValueIn ε) : (value.map bodies envs).face = value.face := by
  cases value <;> rfl

section
variable {value right : ValueIn ε} {other otherRight : ValueIn δ}

theorem face_eq_literal {constant : Literal} (same : other.face = .literal constant) :
    other = .literal constant := by
  cases other <;> cases same
  rfl

theorem truthy_of_face (same : other.face = value.face) : other.truthy = value.truthy := by
  cases value <;> cases other <;> simp_all [face, truthy]

theorem display_of_face (same : other.face = value.face) : other.display = value.display := by
  cases value <;> cases other <;> simp_all [face, display]

theorem arity?_of_face (same : other.face = value.face) : other.arity? = value.arity? := by
  cases value <;> cases other <;> simp_all [face, arity?]

theorem equal_of_face (same : other.face = value.face) (sameRight : otherRight.face = right.face) :
    other.equal otherRight = value.equal right := by
  cases value <;> cases right <;> cases other <;> cases otherRight <;> simp_all [face, equal]

end

@[simp] theorem truthy_map (value : ValueIn ε) : (value.map bodies envs).truthy = value.truthy :=
  truthy_of_face value.face_map

@[simp] theorem display_map (value : ValueIn ε) :
    (value.map bodies envs).display = value.display :=
  display_of_face value.face_map

end ValueIn

namespace Operator

/-- The same constant or the same failure, each on the line of its own operator. -/
inductive Answers (first second : Token) :
    Except Failure (ValueIn ε) → Except Failure (ValueIn δ) → Prop where
  | ok (constant : Literal) : Answers first second (.ok (.literal constant)) (.ok (.literal constant))
  | runtime (cause : RuntimeError.Cause) : Answers first second
      (.error (.runtime ⟨first.line, cause⟩)) (.error (.runtime ⟨second.line, cause⟩))
  | fault (fault : Fault) : Answers first second (.error (.fault fault)) (.error (.fault fault))

section
variable {first second : Token} {value right : ValueIn ε} {other otherRight : ValueIn δ}

theorem unary_answers (kind : second.kind = first.kind) (lexeme : second.lexeme = first.lexeme)
    (same : other.face = value.face) :
    Answers first second (unary first value) (unary second other) := by
  unfold unary
  rw [kind]
  split
  · rw [ValueIn.truthy_of_face same]
    exact .ok _
  · cases value with
    | literal constant =>
      obtain rfl := ValueIn.face_eq_literal same
      cases constant with
      | number value => exact .ok _
      | _ => exact .runtime _
    | _ => cases other <;> first | exact .runtime _ | simp [ValueIn.face] at same
  · rw [lexeme]
    exact .fault _

theorem add_answers (same : other.face = value.face) (sameRight : otherRight.face = right.face) :
    Answers first second (add first value right) (add second other otherRight) := by
  cases value with
  | literal left =>
    obtain rfl := ValueIn.face_eq_literal same
    cases right with
    | literal right =>
      obtain rfl := ValueIn.face_eq_literal sameRight
      cases left <;> cases right <;> first | exact .ok _ | exact .runtime _
    | _ =>
      cases otherRight <;>
        first | cases left <;> exact .runtime _ | simp [ValueIn.face] at sameRight
  | _ => cases other <;> first | exact .runtime _ | simp [ValueIn.face] at same

theorem arithmetic_answers (kind : second.kind = first.kind) (lexeme : second.lexeme = first.lexeme)
    (same : other.face = value.face) (sameRight : otherRight.face = right.face) :
    Answers first second (arithmetic first value right) (arithmetic second other otherRight) := by
  cases value with
  | literal left =>
    obtain rfl := ValueIn.face_eq_literal same
    cases right with
    | literal right =>
      obtain rfl := ValueIn.face_eq_literal sameRight
      cases left with
      | number left =>
        cases right with
        | number right =>
          unfold arithmetic numeric?
          rw [kind, lexeme]
          cases first.kind <;> first | exact .ok _ | exact .fault _
        | _ => exact .runtime _
      | _ => exact .runtime _
    | _ =>
      cases otherRight <;>
        first | cases left <;> exact .runtime _ | simp [ValueIn.face] at sameRight
  | _ => cases other <;> first | exact .runtime _ | simp [ValueIn.face] at same

/-- Operators give constants, and look at no more than the faces of their operands. -/
theorem binary_answers (kind : second.kind = first.kind) (lexeme : second.lexeme = first.lexeme)
    (same : other.face = value.face) (sameRight : otherRight.face = right.face) :
    Answers first second (binary first value right) (binary second other otherRight) := by
  unfold binary
  rw [kind]
  split
  · rw [ValueIn.equal_of_face same sameRight]
    exact .ok _
  · rw [ValueIn.equal_of_face same sameRight]
    exact .ok _
  · exact add_answers same sameRight
  · exact arithmetic_answers kind lexeme same sameRight

theorem decides_of_face (kind : second.kind = first.kind) (same : other.face = value.face) :
    decides second other = decides first value := by
  unfold decides
  rw [kind, ValueIn.truthy_of_face same]

end

section
variable {operator : Token}

theorem Answers.literal {value : ValueIn ε} {result : Except Failure (ValueIn ε)}
    (answers : Answers operator operator result result) (same : result = .ok value) :
    ∃ constant, value = .literal constant := by
  cases answers <;> cases same
  exact ⟨_, rfl⟩

theorem unary_literal {operand value : ValueIn ε} (same : unary operator operand = .ok value) :
    ∃ constant, value = .literal constant :=
  (unary_answers rfl rfl rfl).literal same

theorem binary_literal {left right value : ValueIn ε}
    (same : binary operator left right = .ok value) : ∃ constant, value = .literal constant :=
  (binary_answers rfl rfl rfl rfl).literal same

theorem Answers.map_eq {result : Except Failure (ValueIn ε)} {second : Except Failure (ValueIn δ)}
    (answers : Answers operator operator result second) :
    second = result.map (ValueIn.map bodies envs) := by
  cases answers <;> rfl

theorem unary_map (operator : Token) (value : ValueIn ε) :
    unary operator (value.map bodies envs) =
      (unary operator value).map (ValueIn.map bodies envs) :=
  (unary_answers rfl rfl value.face_map).map_eq

theorem binary_map (operator : Token) (left right : ValueIn ε) :
    binary operator (left.map bodies envs) (right.map bodies envs) =
      (binary operator left right).map (ValueIn.map bodies envs) :=
  (binary_answers rfl rfl left.face_map right.face_map).map_eq

@[simp] theorem decides_map (operator : Token) (value : ValueIn ε) :
    decides operator (value.map bodies envs) = decides operator value :=
  decides_of_face rfl value.face_map

end

end Operator

/-- A closure that is called has as many parameters as there are arguments. -/
theorem Rules.length_eq_of_refusal? {rules : Rules} {function : ClosureIn ε} {count depth : Nat}
    (accepted : rules.refusal? (.closure function) count depth = none) :
    function.params.length = count := by
  unfold Rules.refusal? ValueIn.arity? at accepted
  dsimp only at accepted
  split at accepted
  · cases accepted
  next same => exact (Decidable.not_not.mp same).symm

theorem call_of_refused {rules : Rules} {fuel : Nat} {callee : Value} {arguments : List Value}
    {line : Int} {machine : Machine} {cause : RuntimeError.Cause}
    (refused : rules.refusal? callee arguments.length machine.depth = some cause) :
    call rules (fuel + 1) callee arguments line machine =
      .failed (.runtime ⟨line, cause⟩) machine := by
  cases callee with
  | literal value => rw [call, refused]
  | closure function => rw [call, refused]
  | native function => cases function; rw [call, refused]

theorem Rules.refusal?_of_face {callee : ValueIn ε} {other : ValueIn δ}
    (same : other.face = callee.face) (rules : Rules) (count depth : Nat) :
    rules.refusal? other count depth = rules.refusal? callee count depth := by
  unfold Rules.refusal?
  rw [ValueIn.arity?_of_face same]

@[simp] theorem Rules.refusal?_map (rules : Rules) (callee : ValueIn ε) (count depth : Nat) :
    rules.refusal? (callee.map bodies envs) count depth = rules.refusal? callee count depth :=
  rules.refusal?_of_face callee.face_map count depth

end Lox
