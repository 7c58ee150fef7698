import Lox.Proofs.Frames.Growth
import Lox.Proofs.Values

/-! Machines whose closures have bodies without distances.

Such a body is all that dynamic look-up needs of a function. Erasing distances
changes no frame, no name and no order of names, so it goes along with every step
of a machine.
-/

set_option autoImplicit false

namespace Lox

section
variable {α β : Type} {change : α → β}

namespace Frame

def map (change : α → β) (frame : Frame α) : Frame β :=
  ⟨frame.bindings.map (Prod.map id change), frame.parent⟩

theorem bind_map (name : String) (value : α) (bindings : List (String × α)) :
    bind name (change value) (bindings.map (Prod.map id change)) =
      (bind name value bindings).map (Prod.map id change) := by
  induction bindings with
  | nil => rfl
  | cons first others ih =>
    by_cases same : first.1 = name <;> simp [bind, same, ih, Prod.map]

theorem lookup_map (name : String) (bindings : List (String × α)) :
    lookup name (bindings.map (Prod.map id change)) = (lookup name bindings).map change := by
  induction bindings with
  | nil => rfl
  | cons first others ih =>
    by_cases same : first.1 = name <;> simp [lookup, same, ih, Prod.map]

theorem map_put (frame : Frame α) (name : String) (value : α) :
    (frame.put name value).map change = (frame.map change).put name (change value) := by
  unfold put map
  rw [bind_map]

end Frame

namespace Store

def map (change : α → β) (store : Store α) : Store β :=
  ⟨store.frames.map (Frame.map change)⟩

variable {store : Store α} {number : Nat} {name : String}

@[simp] theorem next_map : (store.map change).next = store.next :=
  Array.size_map

theorem frame?_map :
    (store.map change).frame? number = (store.frame? number).map (Frame.map change) :=
  Array.getElem?_map

theorem chainWithin_map (steps : Nat) :
    (store.map change).chainWithin steps number = store.chainWithin steps number := by
  apply chainWithin_eq_of_parents
  intro id
  rw [frame?_map, Option.map_map]
  rfl

@[simp] theorem value?_map :
    (store.map change).value? number name = (store.value? number name).map change := by
  unfold value?
  rw [frame?_map]
  cases store.frame? number with
  | none => rfl
  | some frame => exact Frame.lookup_map name frame.bindings

@[simp] theorem binds_map : (store.map change).binds name number = store.binds name number := by
  rw [binds_eq, binds_eq, value?_map, Option.isSome_map]

@[simp] theorem holder?_map :
    (store.map change).holder? number name = store.holder? number name := by
  have same : (store.map change).binds name = store.binds name := by
    funext other
    exact binds_map
  unfold holder? chain
  rw [chainWithin_map, same]

@[simp] theorem get?_map :
    (store.map change).get? number name = (store.get? number name).map change := by
  unfold get?
  rw [holder?_map]
  cases store.holder? number name with
  | none => rfl
  | some holder => exact value?_map

@[simp] theorem bindings_map :
    (store.map change).bindings number = (store.bindings number).map (Prod.map id change) := by
  unfold bindings
  rw [frame?_map]
  cases store.frame? number <;> rfl

theorem chain_map : (store.map change).chain number = store.chain number :=
  chainWithin_map (number + 1)

theorem getAt_map (distance : Nat) :
    (store.map change).getAt number distance name =
      (store.getAt number distance name).map change := by
  unfold getAt
  rw [chain_map]
  cases (store.chain number)[distance]? with
  | none => rfl
  | some found =>
    dsimp only
    rw [value?_map]
    cases store.value? found name <;> rfl

theorem locate_map (distance : Nat) :
    (store.map change).locate number distance name = store.locate number distance name := by
  simp only [locate, chain_map, binds_map]

theorem map_map {γ : Type} {further : β → γ} :
    (store.map change).map further = store.map (further ∘ change) := by
  simp [map, Frame.map, Function.comp_def]

theorem map_id : store.map id = store := by
  have frames : Frame.map (@id α) = id := by
    funext frame
    simp [Frame.map]
  simp [map, frames]

theorem ext_frame? {first second : Store α}
    (same : ∀ number, first.frame? number = second.frame? number) : first = second :=
  congrArg Store.mk (Array.ext_getElem? same)

theorem map_put (value : α) :
    (store.put number name value).map change = (store.map change).put number name (change value) := by
  apply ext_frame?
  intro other
  rw [frame?_map, frame?_put, frame?_put, frame?_map]
  cases store.frame? other with
  | none => simp
  | some frame => by_cases same : number = other <;> simp [same, Frame.map_put]

theorem map_empty : (empty : Store α).map change = empty := by
  simp [map, empty]

theorem map_add (parent : Option Nat) :
    (store.add parent).map change = (store.map change).add parent := by
  unfold add map
  rw [Array.map_push]
  rfl

end Store

end

abbrev ValueIn.erase {ε : Type} (value : ValueIn ε) : ValueIn ε := value.map Stmt.eraseAll id

def CompletionIn.erase {ε : Type} : CompletionIn (ValueIn ε) → CompletionIn (ValueIn ε)
  | .normal => .normal
  | .returned value => .returned value.erase

theorem CompletionIn.value_erase {ε : Type} (completion : CompletionIn (ValueIn ε)) :
    completion.erase.value = completion.value.erase := by
  cases completion <;> rfl

namespace Machine

def erase (machine : Machine) : Machine :=
  { machine with store := machine.store.map ValueIn.erase }

theorem erase_initial : initial.erase = initial := by
  simp only [erase, initial, Store.map_add, Store.map_empty]

variable (machine : Machine)

theorem erase_define (name : String) (value : Value) :
    (machine.define name value).erase = machine.erase.define name value.erase := by
  simp only [erase, define, Store.map_put]

theorem erase_enter (parent : Nat) : (machine.enter parent).erase = machine.erase.enter parent := by
  simp only [erase, enter, Store.map_add, Store.next_map]

theorem defineAll_of_define {change : Machine → Machine} {values : Value → Value}
    (define : ∀ (machine : Machine) (name : String) (value : Value),
      change (machine.define name value) = (change machine).define name (values value))
    (params : List Token) (arguments : List Value) :
    change (machine.defineAll params arguments) =
      (change machine).defineAll params (arguments.map values) := by
  unfold defineAll
  induction params generalizing machine arguments with
  | nil => rfl
  | cons param params ih =>
    cases arguments with
    | nil => rfl
    | cons argument arguments =>
      simp only [List.map_cons, List.zip_cons_cons, List.foldl_cons, ih, define]

theorem erase_defineAll (params : List Token) (arguments : List Value) :
    (machine.defineAll params arguments).erase =
      machine.erase.defineAll params (arguments.map ValueIn.erase) :=
  machine.defineAll_of_define erase_define params arguments

theorem erase_defineClosure (name : Token) (params : List Token) (body : List Stmt) :
    (machine.defineClosure name params body).erase =
      machine.erase.defineClosure name params (Stmt.eraseAll body) := by
  simp only [erase, defineClosure, define, Store.map_put]
  rfl

theorem erase_replace (found : Nat) (name : String) (value : Value) :
    (machine.replace found name value).erase = machine.erase.replace found name value.erase := by
  simp only [erase, replace, Store.map_put]

theorem erase_enterCall (function : Closure) (arguments : List Value) :
    (machine.enterCall function arguments).erase =
      machine.erase.enterCall (function.map Stmt.eraseAll id) (arguments.map ValueIn.erase) := by
  unfold enterCall
  rw [erase_defineAll]
  simp only [erase, enter, Store.map_add, Store.next_map]
  rfl

theorem read_erase (lookup : Lookup) (name : Token) :
    machine.erase.read lookup name none = (machine.read lookup name none).map ValueIn.erase := by
  have search : machine.erase.store.get? (machine.erase.searchFrame lookup) name.lexeme =
      (machine.store.get? (machine.searchFrame lookup) name.lexeme).map ValueIn.erase :=
    Store.get?_map
  simp only [read, search]
  cases machine.store.get? (machine.searchFrame lookup) name.lexeme <;> rfl

theorem locate_erase (lookup : Lookup) (name : Token) :
    machine.erase.locate lookup name none = machine.locate lookup name none := by
  have search : machine.erase.store.holder? (machine.erase.searchFrame lookup) name.lexeme =
      machine.store.holder? (machine.searchFrame lookup) name.lexeme :=
    Store.holder?_map
  simp only [locate, search]

theorem bindings_erase (number : Nat) :
    machine.erase.store.bindings number =
      (machine.store.bindings number).map (Prod.map id ValueIn.erase) :=
  Store.bindings_map

end Machine

namespace OutcomeIn

variable {σ τ α β γ δ : Type} {valueOf : α → β} {stateOf : σ → τ}

def map (outcome : OutcomeIn σ α) (valueOf : α → β) (stateOf : σ → τ) : OutcomeIn τ β :=
  match outcome with
  | .done value state => .done (valueOf value) (stateOf state)
  | .failed failure state => .failed failure (stateOf state)
  | .cut state => .cut (stateOf state)

theorem map_bind {outcome : OutcomeIn σ α} {other : OutcomeIn τ β} {next : α → σ → OutcomeIn σ γ}
    {otherNext : β → τ → OutcomeIn τ δ} {finally_ : γ → δ}
    (same : outcome.map valueOf stateOf = other)
    (goesOn : ∀ {value : α} {state : σ}, outcome = .done value state →
      (next value state).map finally_ stateOf = otherNext (valueOf value) (stateOf state)) :
    (outcome.bind next).map finally_ stateOf = other.bind otherNext := by
  subst same
  cases outcome with
  | done value state => exact goesOn rfl
  | failed failure state => rfl
  | exhausted => rfl

theorem map_mapState {outcome : OutcomeIn σ α} {other : OutcomeIn τ β} {change : σ → σ}
    {otherChange : τ → τ} (same : outcome.map valueOf stateOf = other)
    (along : ∀ state, stateOf (change state) = otherChange (stateOf state)) :
    (outcome.mapState change).map valueOf stateOf = other.mapState otherChange := by
  subst same
  cases outcome with
  | done value state => exact congrArg (done (valueOf value)) (along state)
  | failed failure state => exact congrArg (failed failure) (along state)
  | @exhausted state =>
    change cut (stateOf (change state)) = cut (otherChange (stateOf state))
    rw [along]

theorem map_ofExcept (result : Except Failure α) (state : σ) :
    (ofExcept result state).map valueOf stateOf =
      ofExcept (result.map valueOf) (stateOf state) := by
  cases result <;> rfl

end OutcomeIn

end Lox
