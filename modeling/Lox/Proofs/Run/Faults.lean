import Lox.Proofs.Run.Stands
import Lox.Proofs.Scoping.Own

/-! What a standing task can raise.

Its operators are known, its trees have no raw nodes, and a use that has the
distance of its name finds the name there. Only an assignment to a pending variable
walks to a frame that may not bind the name.
-/

set_option autoImplicit false

namespace Lox

variable {allowed : Site → Prop} {rules : Rules} {wholes : List (List String)}
  {regions : List Region} {pending : Option String} {machine : Machine} {failure : Failure}

def Failure.IsRuntime (failure : Failure) : Prop := ∃ error, failure = .runtime error

namespace Operator

theorem unary_isRuntime {operator : Token} {operand : Value}
    (known : operator.kind ∈ unaryKinds) (error : unary operator operand = .error failure) :
    failure.IsRuntime := by
  unfold unary at error
  split at error
  next => cases error
  next =>
    split at error
    · cases error
    · cases error
      exact ⟨_, rfl⟩
  next notBang notMinus => simp_all [unaryKinds]

theorem numeric?_isSome {kind : Token.Kind} (known : kind ∈ binaryKinds) (notEqual : kind ≠ .bangEqual)
    (equal : kind ≠ .equalEqual) (plus : kind ≠ .plus) (left right : Number) :
    (numeric? kind left right : Option Value) ≠ none := by
  unfold numeric?
  split
  case h_8 => simp_all [binaryKinds]
  all_goals simp

theorem binary_isRuntime {operator : Token} {left right : Value}
    (known : operator.kind ∈ binaryKinds) (error : binary operator left right = .error failure) :
    failure.IsRuntime := by
  unfold binary at error
  split at error
  next => cases error
  next => cases error
  next =>
    unfold add at error
    split at error <;> cases error
    exact ⟨_, rfl⟩
  next notEqual equal plus =>
    unfold arithmetic at error
    split at error
    · split at error
      · cases error
      next missing => exact absurd missing (numeric?_isSome known notEqual equal plus _ _)
    · cases error
      exact ⟨_, rfl⟩

end Operator

/-- The chain is long enough for a walk, and the frame where the walk ends is none of
the globals and binds the name. -/
def Machine.Finds (machine : Machine) (name : Token) (distance : Nat) : Prop :=
  ∃ found, (machine.store.chain machine.frame)[distance]? = some found ∧
    found ≠ Machine.globals ∧ machine.store.binds name.lexeme found = true

namespace Machine

theorem Stands.finds {name : Token} {distance : Nat} {assigned : Bool}
    (stands : machine.Stands allowed wholes regions)
    (exact_ : Site.Exact ⟨regions, pending, assigned, name, some distance⟩) :
    machine.Finds name distance :=
  stands.fits.located exact_.symm

theorem Finds.read_ne_error {name : Token} {distance : Nat} {lookup : Lookup}
    (finds : machine.Finds name distance) :
    machine.read lookup name (some distance) ≠ .error failure := by
  obtain ⟨found, here, _, binds⟩ := finds
  obtain ⟨value, read⟩ := Store.binds_iff.mp binds
  simp [Machine.read, Store.getAt, here, read]

theorem Finds.locate_ne_error {name : Token} {distance : Nat} {lookup : Lookup}
    (finds : machine.Finds name distance) :
    machine.locate lookup name (some distance) ≠ .error failure := by
  obtain ⟨found, here, _, binds⟩ := finds
  simp [Machine.locate, Store.locate, here, binds]

theorem Stands.read_isRuntime {name : Token} {distance : Option Nat} {lookup : Lookup}
    (stands : machine.Stands allowed wholes regions)
    (exact_ : Site.Exact ⟨regions, pending, false, name, distance⟩)
    (error : machine.read lookup name distance = .error failure) : failure.IsRuntime := by
  cases distance with
  | some distance => exact absurd error (stands.finds exact_).read_ne_error
  | none =>
    unfold Machine.read at error
    dsimp only at error
    split at error <;> cases error
    exact ⟨_, rfl⟩

theorem Stands.locate_isRuntime {name : Token} {distance : Option Nat} {lookup : Lookup}
    (stands : machine.Stands allowed wholes regions)
    (exact_ : Site.Exact ⟨regions, pending, true, name, distance⟩)
    (error : machine.locate lookup name distance = .error failure) : failure.IsRuntime := by
  cases distance with
  | some distance => exact absurd error (stands.finds exact_).locate_ne_error
  | none =>
    unfold Machine.locate at error
    dsimp only at error
    split at error <;> cases error
    exact ⟨_, rfl⟩

theorem Stands.locate_zero {name : Token} {lookup : Lookup}
    (stands : machine.Stands allowed wholes regions)
    (error : machine.locate lookup name (some 0) = .error failure) :
    machine.store.binds name.lexeme machine.frame = false ∧
      failure = .fault (.store (.missing name.lexeme)) := by
  unfold Machine.locate Store.locate at error
  simp only [Store.Along.chain_zero stands.fits] at error
  by_cases binds : machine.store.binds name.lexeme machine.frame = true
  · simp [binds] at error
  · simp only [binds] at error
    cases error
    exact ⟨Bool.eq_false_iff.mpr binds, rfl⟩

end Machine

namespace Point

/-- The walks to a distance that a task makes itself, each with the machine that makes it. -/
inductive Walks (rules : Rules) : Point → Machine → Token → Nat → Prop where
  | read {fuel : Nat} {machine : Machine} {name : Token} {distance : Nat} :
      Walks rules ⟨.evaluate (.reference name (some distance)), fuel + 1, machine⟩ machine
        name distance
  | write {fuel : Nat} {machine after : Machine} {name : Token} {value : Expr} {distance : Nat}
      {result : Value} :
      evaluate rules fuel value machine = .done result after →
      Walks rules ⟨.evaluate (.assign name value (some distance)), fuel + 1, machine⟩ after
        name distance

/-- An assignment in the current frame, which does not bind the name. -/
inductive AssignsUnbound (rules : Rules) (name : String) : Point → Prop where
  | intro {fuel : Nat} {machine after : Machine} {token : Token} {value : Expr} {result : Value} :
      token.lexeme = name → evaluate rules fuel value machine = .done result after →
      after.frame = machine.frame → after.store.binds name after.frame = false →
      AssignsUnbound rules name ⟨.evaluate (.assign token value (some 0)), fuel + 1, machine⟩

variable {own : String → Prop} {point : Point}

/-- Where each use has the distance of its name, each walk finds the name. -/
theorem Stands.walks_find {name : Token} {distance : Nat} (stands : point.Stands Site.Exact own)
    (walks : Walks rules point machine name distance) : machine.Finds name distance := by
  cases walks with
  | read =>
    cases stands with
    | evaluate stands proper uses own => exact stands.finds uses
  | write ran =>
    cases stands with
    | evaluate stands proper uses own =>
      obtain ⟨more, settles⟩ := stands.evaluated uses.1 ran
      exact settles.stands.finds uses.2

/-- A failure is the program's own, or comes from an assignment to the pending
variable. -/
theorem Stands.raises
    (known : ∀ site, allowed site → site.Exact ∨
      site.pending = some site.name.lexeme ∧ site.assigned = true ∧ site.distance = some 0)
    (stands : point.Stands allowed own) (raises : Raises rules point failure) :
    failure.IsRuntime ∨ ∃ site, allowed site ∧ ¬ site.Exact ∧ own site.name.lexeme ∧
      AssignsUnbound rules site.name.lexeme point ∧
      failure = .fault (.store (.missing site.name.lexeme)) := by
  cases raises with
  | unary ran error =>
    cases stands with
    | evaluate stands proper uses own => exact .inl (Operator.unary_isRuntime proper.1 error)
  | binary ran more error =>
    cases stands with
    | evaluate stands proper uses own => exact .inl (Operator.binary_isRuntime proper.2.1 error)
  | reference error =>
    cases stands with
    | evaluate stands proper uses own =>
      rcases known _ uses with located | ⟨_, assigned, _⟩
      · exact .inl (stands.read_isRuntime located error)
      · cases assigned
  | @assign _ _ _ name _ distance _ _ ran error =>
    cases stands with
    | @evaluate _ regions pending _ _ _ stands proper uses own =>
      obtain ⟨more, settles⟩ := stands.evaluated uses.1 ran
      -- A distance is wrong only if the pending variable is assigned, which has distance zero.
      by_cases located : Site.Exact ⟨regions, pending, true, name, distance⟩
      · exact .inl (settles.stands.locate_isRuntime located error)
      · obtain ⟨isPending, _, rfl⟩ := (known _ uses.2).resolve_left located
        obtain ⟨unbound, rfl⟩ := settles.stands.locate_zero error
        exact .inr ⟨_, uses.2, located, own _ isPending,
          .intro rfl ran settles.returns.frame unbound, rfl⟩
  | refused refused => exact .inl ⟨_, rfl⟩
  | misplacedExpr =>
    cases stands with
    | evaluate stands proper uses own => exact proper.elim
  | misplacedStmt =>
    cases stands with
    | execute stands proper uses opens => exact proper.elim

end Point

end Lox
