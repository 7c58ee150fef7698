import Lox.Proofs.Frames.Preservation
import Lox.Proofs.Frames.Rooted
import Lox.Proofs.Run.Changes

/-! The graph of frames at every point of a run.

The way outwards from the current frame and from the frame of each closure ends at the
globals, wherever a run stands and however it stops. A new frame is made inside one from
which this holds already, and every other step only keeps or copies such closures.
-/

set_option autoImplicit false

namespace Lox

/-- The way outwards from the frame of a closure ends at the globals. -/
def ValueIn.Rooted (store : Store Value) : Value → Prop
  | .closure function => store.LeadsOut function.env
  | .literal _ | .native _ => True

theorem ValueIn.Rooted.mono {store grown : Store Value} {value : Value}
    (rooted : value.Rooted store) (grows : store.Extends grown) (grownRooted : grown.Rooted) :
    value.Rooted grown := by
  cases value with
  | closure function => exact Store.LeadsOut.mono rooted grows grownRooted
  | _ => trivial

/-- The way outwards from the current frame, and from that of each closure in a frame,
ends at the globals. -/
structure Machine.Rooted (machine : Machine) : Prop where
  store : machine.store.Rooted
  frame : machine.store.LeadsOut machine.frame
  values : ∀ {id : Nat} {name : String} {value : Value},
    machine.store.value? id name = some value → value.Rooted machine.store

/-- A step has led from one machine to another and gives some values. -/
structure Machine.Carries (before : Machine) (values : List Value) (after : Machine) : Prop where
  rooted : after.Rooted
  grows : before.store.Extends after.store
  values : ∀ value ∈ values, value.Rooted after.store

namespace Machine

variable {before machine middle after : Machine} {values others : List Value} {value : Value}

namespace Rooted

theorem replace (rooted : machine.Rooted) (found : Nat) (name : String)
    (rootedValue : value.Rooted machine.store) : (machine.replace found name value).Rooted := by
  have store : (machine.store.put found name value).Rooted := rooted.store.put found name value
  have grows := Store.Extends.put machine.store found name value
  refine ⟨store, rooted.frame.mono grows store, ?_⟩
  intro id other read bound
  change (machine.store.put found name value).value? id other = some read at bound
  -- What is read is the new value, or one from before.
  by_cases exist : found < machine.store.next
  · rw [Store.value?_put exist] at bound
    split at bound
    · cases bound
      exact rootedValue.mono grows store
    · exact (rooted.values bound).mono grows store
  · rw [Store.put_of_le (Nat.le_of_not_lt exist)] at bound
    exact (rooted.values bound).mono grows store

theorem define (rooted : machine.Rooted) (name : String) (rootedValue : value.Rooted machine.store) :
    (machine.define name value).Rooted :=
  rooted.replace machine.frame name rootedValue

theorem enter {parent : Nat} (rooted : machine.Rooted) (leads : machine.store.LeadsOut parent) :
    (machine.enter parent).Rooted := by
  have store : (machine.store.add (some parent)).Rooted := rooted.store.add leads.lt_next
  have exist : machine.store.next < (machine.store.add (some parent)).next := by simp
  refine ⟨store, store.leadsOut exist, ?_⟩
  intro id name read bound
  change (machine.store.add (some parent)).value? id name = some read at bound
  rw [Store.value?_add] at bound
  exact (rooted.values bound).mono (.add _ _) store

theorem returnTo {frame depth : Nat} (rooted : machine.Rooted)
    (leads : machine.store.LeadsOut frame) : (machine.returnTo frame depth).Rooted :=
  ⟨rooted.store, leads, rooted.values⟩

theorem defineClosure (rooted : machine.Rooted) (name : Token) (params : List Token)
    (body : List Stmt) : (machine.defineClosure name params body).Rooted := by
  have bound := rooted.define name.lexeme
    (show (ValueIn.closure ⟨machine.closures, name, params, body, machine.frame⟩).Rooted
      machine.store from rooted.frame)
  exact ⟨bound.store, bound.frame, bound.values⟩

theorem openCall {function : Closure} (rooted : machine.Rooted)
    (leads : machine.store.LeadsOut function.env) : (machine.openCall function).Rooted := by
  have entered := rooted.enter leads
  exact ⟨entered.store, entered.frame, entered.values⟩

end Rooted

theorem Carries.refl (rooted : machine.Rooted)
    (rootedValues : ∀ value ∈ values, value.Rooted machine.store) :
    machine.Carries values machine :=
  ⟨rooted, .refl _, rootedValues⟩

theorem Carries.self (rooted : machine.Rooted) : machine.Carries [] machine :=
  .refl rooted (by simp)

theorem Carries.trans (first : before.Carries others middle) (second : middle.Carries values after) :
    before.Carries values after :=
  ⟨second.rooted, first.grows.trans second.grows, second.values⟩

theorem Carries.still (carries : before.Carries others after)
    (rooted : ∀ value ∈ values, value.Rooted before.store) :
    ∀ value ∈ values, value.Rooted after.store :=
  fun value member => (rooted value member).mono carries.grows carries.rooted.store

theorem Rooted.carries_enter (rooted : machine.Rooted) :
    machine.Carries [] (machine.enter machine.frame) :=
  ⟨rooted.enter rooted.frame, .add .., by simp⟩

theorem carries_bindAll (pairs : List (Token × Value)) : ∀ {machine : Machine}, machine.Rooted →
    (∀ pair ∈ pairs, pair.2.Rooted machine.store) → machine.Carries [] (machine.bindAll pairs) := by
  induction pairs with
  | nil => exact fun rooted _ => .self rooted
  | cons pair pairs ih =>
    intro machine rooted rootedAll
    have bound : machine.Carries [] (machine.define pair.1.lexeme pair.2) :=
      ⟨rooted.define _ (rootedAll pair List.mem_cons_self), .put .., by simp⟩
    refine bound.trans (ih bound.rooted ?_)
    exact fun other member => (rootedAll other (.tail _ member)).mono bound.grows bound.rooted.store

theorem frame_bindAll (pairs : List (Token × Value)) : ∀ machine : Machine,
    (machine.bindAll pairs).frame = machine.frame := by
  induction pairs with
  | nil => exact fun _ => rfl
  | cons pair pairs ih => exact fun machine => ih (machine.define pair.1.lexeme pair.2)

/-- The first parameters of a call are bound in its new frame. -/
theorem Rooted.carries_bound {function : Closure} {arguments : List Value}
    {bound others : List (Token × Value)} (rooted : machine.Rooted)
    (leads : machine.store.LeadsOut function.env)
    (rootedAll : ∀ argument ∈ arguments, argument.Rooted machine.store)
    (split : function.params.zip arguments = bound ++ others) :
    machine.Carries [] ((machine.openCall function).bindAll bound) := by
  have opened : machine.Carries [] (machine.openCall function) :=
    ⟨rooted.openCall leads, .add .., by simp⟩
  refine opened.trans (carries_bindAll bound opened.rooted ?_)
  intro pair member
  have inZip : pair ∈ function.params.zip arguments := split ▸ List.mem_append_left _ member
  exact opened.still rootedAll pair.2 (List.of_mem_zip inZip).2

theorem Rooted.carries_enterCall {function : Closure} {arguments : List Value}
    (rooted : machine.Rooted) (leads : machine.store.LeadsOut function.env)
    (rootedAll : ∀ argument ∈ arguments, argument.Rooted machine.store) :
    machine.Carries [] (machine.enterCall function arguments) :=
  rooted.carries_bound leads rootedAll (List.append_nil _).symm

end Machine

/-! ### Steps -/

/-- A step stops in a rooted machine, and gives rooted values if it ends well. -/
def OutcomeIn.Roots {α : Type} (before : Machine) (values : α → List Value)
    (outcome : Outcome α) : Prop :=
  before.Carries [] outcome.state ∧
    ∀ value after, outcome = .done value after → ∀ given ∈ values value, given.Rooted after.store

namespace OutcomeIn.Roots

variable {α β : Type} {before middle : Machine} {values : α → List Value}
  {others : β → List Value} {outcome : Outcome α}

theorem of_done {value : α} {after : Machine} (roots : outcome.Roots before values)
    (ran : outcome = .done value after) : before.Carries (values value) after := by
  subst ran
  exact ⟨roots.1.rooted, roots.1.grows, roots.2 _ _ rfl⟩

theorem done {value : α} {after : Machine} (carries : before.Carries (values value) after) :
    (OutcomeIn.done value after : Outcome α).Roots before values := by
  refine ⟨⟨carries.rooted, carries.grows, by simp⟩, ?_⟩
  rintro _ _ ⟨⟩
  exact carries.values

theorem failed {failure : Failure} {given : List Value} {after : Machine}
    (carries : before.Carries given after) :
    (OutcomeIn.failed failure after : Outcome α).Roots before values :=
  ⟨⟨carries.rooted, carries.grows, by simp⟩, nofun⟩

theorem behind {given : List Value} (carries : before.Carries given middle)
    (roots : outcome.Roots middle values) : outcome.Roots before values :=
  ⟨carries.trans roots.1, roots.2⟩

theorem bind {next : α → Machine → Outcome β} (roots : outcome.Roots before values)
    (goesOn : ∀ value after, before.Carries (values value) after →
      (next value after).Roots after others) : (outcome.bind next).Roots before others := by
  cases outcome with
  | done value after =>
    have carries := roots.of_done rfl
    exact behind carries (goesOn value after carries)
  | failed failure after => exact failed roots.1
  | exhausted => exact ⟨roots.1, nofun⟩

theorem ofExcept {result : Except Failure α} (carries : before.Carries [] middle)
    (ok : ∀ value, result = .ok value → ∀ given ∈ values value, given.Rooted middle.store) :
    (OutcomeIn.ofExcept result middle).Roots before values := by
  cases result with
  | ok value => exact done ⟨carries.rooted, carries.grows, ok value rfl⟩
  | error failure => exact failed carries

theorem returnTo {depth : Nat} (leads : before.store.LeadsOut before.frame)
    (roots : outcome.Roots before values) :
    (outcome.mapState (·.returnTo before.frame depth)).Roots before values := by
  have after : before.Carries [] (outcome.state.returnTo before.frame depth) :=
    ⟨roots.1.rooted.returnTo (leads.mono roots.1.grows roots.1.rooted.store), roots.1.grows, by simp⟩
  refine ⟨by rw [state_mapState]; exact after, ?_⟩
  intro value last ran
  cases outcome with
  | done first state =>
    cases ran
    exact roots.2 value state rfl
  | _ => cases ran

end OutcomeIn.Roots

structure RootsWith (rules : Rules) (fuel : Nat) : Prop where
  evaluate : ∀ {expr machine}, machine.Rooted →
    (evaluate rules fuel expr machine).Roots machine ([·])
  evaluateAll : ∀ {exprs machine}, machine.Rooted →
    (evaluateAll rules fuel exprs machine).Roots machine id
  call : ∀ {callee arguments line machine}, machine.Rooted → callee.Rooted machine.store →
    (∀ argument ∈ arguments, argument.Rooted machine.store) →
    (call rules fuel callee arguments line machine).Roots machine ([·])
  execute : ∀ {stmt machine}, machine.Rooted →
    (execute rules fuel stmt machine).Roots machine CompletionIn.values
  executeAll : ∀ {stmts machine}, machine.Rooted →
    (executeAll rules fuel stmts machine).Roots machine CompletionIn.values
  executeLoop : ∀ {condition body machine}, machine.Rooted →
    (executeLoop rules fuel condition body machine).Roots machine CompletionIn.values

namespace RootsWith

variable {rules : Rules} {fuel : Nat} {machine : Machine}

theorem evaluate_succ (ih : RootsWith rules fuel) {expr : Expr} (rooted : machine.Rooted) :
    (Lox.evaluate rules (fuel + 1) expr machine).Roots machine ([·]) := by
  cases expr with
  | literal value => exact .done (.refl rooted (by simp [ValueIn.Rooted]))
  | grouping inner => exact ih.evaluate rooted
  | unary operator operand =>
    refine (ih.evaluate rooted).bind fun value after carries => ?_
    refine .ofExcept (.self carries.rooted) fun result same => ?_
    obtain ⟨constant, rfl⟩ := Operator.unary_literal same
    simp [ValueIn.Rooted]
  | binary left operator right =>
    refine (ih.evaluate rooted).bind fun first middle carries => ?_
    refine (ih.evaluate carries.rooted).bind fun second after carries => ?_
    refine .ofExcept (.self carries.rooted) fun result same => ?_
    obtain ⟨constant, rfl⟩ := Operator.binary_literal same
    simp [ValueIn.Rooted]
  | logical left operator right =>
    refine (ih.evaluate rooted).bind fun value middle carries => ?_
    split
    · exact .done (.refl carries.rooted carries.values)
    · exact ih.evaluate carries.rooted
  | reference name distance =>
    refine .ofExcept (.self rooted) fun value same => ?_
    obtain ⟨id, read⟩ := Machine.value?_of_read same
    simpa using rooted.values read
  | assign name value distance =>
    refine (ih.evaluate rooted).bind fun result after carries => ?_
    split
    next found located =>
      have rootedResult := carries.values result (by simp)
      have replaced := carries.rooted.replace found name.lexeme rootedResult
      have grows := Store.Extends.put after.store found name.lexeme result
      refine .done ⟨replaced, grows, ?_⟩
      exact List.forall_mem_singleton.mpr (rootedResult.mono grows replaced.store)
    next => exact .failed (.self carries.rooted)
  | call callee paren arguments =>
    refine (ih.evaluate rooted).bind fun value middle first => ?_
    refine (ih.evaluateAll first.rooted).bind fun values after second => ?_
    -- The callee is older than the arguments, and the store has grown since.
    exact ih.call second.rooted (second.still first.values value (by simp)) second.values
  | misplaced node => exact .failed (.self rooted)

theorem evaluateAll_succ (ih : RootsWith rules fuel) {exprs : List Expr} (rooted : machine.Rooted) :
    (Lox.evaluateAll rules (fuel + 1) exprs machine).Roots machine id := by
  cases exprs with
  | nil => exact .done (.self rooted)
  | cons first others =>
    refine (ih.evaluate rooted).bind fun value middle first => ?_
    refine (ih.evaluateAll first.rooted).bind fun values after second => ?_
    refine .done (.refl second.rooted ?_)
    exact List.forall_mem_cons.mpr ⟨second.still first.values value (by simp), second.values⟩

theorem call_succ (ih : RootsWith rules fuel) {callee : Value} {arguments : List Value} {line : Int}
    (rooted : machine.Rooted) (rootedCallee : callee.Rooted machine.store)
    (rootedAll : ∀ argument ∈ arguments, argument.Rooted machine.store) :
    (Lox.call rules (fuel + 1) callee arguments line machine).Roots machine ([·]) := by
  obtain ⟨_, _, called⟩ | ⟨function, rfl, _, called⟩ | ⟨rfl, _, called⟩ :=
    call_cases rules fuel callee arguments line machine
  · rw [called]
    exact .failed (.self rooted)
  · -- The frame of the call is made inside that of the closure, and left however the body ends.
    have entered := rooted.carries_enterCall rootedCallee rootedAll
    rw [called]
    refine .returnTo rooted.frame (.behind entered ?_)
    refine (ih.executeAll entered.rooted).bind fun completion after carries => ?_
    refine .done (.refl carries.rooted ?_)
    cases completion with
    | normal => simp [CompletionIn.value, ValueIn.nil, ValueIn.Rooted]
    | returned value => exact carries.values
  · rw [called]
    exact .done ⟨⟨rooted.store, rooted.frame, rooted.values⟩, .refl _,
      by simp [ValueIn.number, ValueIn.Rooted]⟩

theorem execute_succ (ih : RootsWith rules fuel) {stmt : Stmt} (rooted : machine.Rooted) :
    (Lox.execute rules (fuel + 1) stmt machine).Roots machine CompletionIn.values := by
  cases stmt with
  | expression inner =>
    refine (ih.evaluate rooted).bind fun value after carries => ?_
    exact .done (.self carries.rooted)
  | print inner =>
    refine (ih.evaluate rooted).bind fun value after carries => ?_
    -- Printing leaves frames as they are.
    have printed : (after.print value.display).Rooted :=
      ⟨carries.rooted.store, carries.rooted.frame, carries.rooted.values⟩
    exact .done ⟨printed, .refl _, by simp [CompletionIn.values]⟩
  | varDecl name initializer =>
    cases initializer with
    | none =>
      exact .done ⟨rooted.define name.lexeme trivial, .put .., by simp [CompletionIn.values]⟩
    | some initializer =>
      refine (ih.evaluate rooted).bind fun value after carries => ?_
      have bound := carries.rooted.define name.lexeme (carries.values value (by simp))
      exact .done ⟨bound, .put .., by simp [CompletionIn.values]⟩
  | block body =>
    have entered := rooted.carries_enter
    rw [execute_block]
    -- Whatever the body does, it does in frames that lead out through the current one.
    exact .returnTo rooted.frame (.behind entered (ih.executeAll entered.rooted))
  | conditional condition yes no =>
    refine (ih.evaluate rooted).bind fun value middle carries => ?_
    split
    · exact ih.execute carries.rooted
    · cases no with
      | none => exact .done (.self carries.rooted)
      | some no => exact ih.execute carries.rooted
  | loop condition body => exact ih.executeLoop rooted
  | funDecl name params body =>
    exact .done ⟨rooted.defineClosure name params body, .put .., by simp [CompletionIn.values]⟩
  | ret keyword value =>
    cases value with
    | none => exact .done (.refl rooted (by simp [CompletionIn.values, ValueIn.nil, ValueIn.Rooted]))
    | some value =>
      refine (ih.evaluate rooted).bind fun result after carries => ?_
      exact .done (.refl carries.rooted carries.values)
  | misplaced node => exact .failed (.self rooted)

theorem executeAll_succ (ih : RootsWith rules fuel) {stmts : List Stmt} (rooted : machine.Rooted) :
    (Lox.executeAll rules (fuel + 1) stmts machine).Roots machine CompletionIn.values := by
  cases stmts with
  | nil => exact .done (.self rooted)
  | cons first others =>
    refine (ih.execute rooted).bind fun completion middle carries => ?_
    cases completion with
    | normal => exact ih.executeAll carries.rooted
    | returned value => exact .done (.refl carries.rooted carries.values)

theorem executeLoop_succ (ih : RootsWith rules fuel) {condition : Expr} {body : Stmt}
    (rooted : machine.Rooted) :
    (Lox.executeLoop rules (fuel + 1) condition body machine).Roots machine
      CompletionIn.values := by
  refine (ih.evaluate rooted).bind fun value middle carries => ?_
  split
  · refine (ih.execute carries.rooted).bind fun completion after ran => ?_
    cases completion with
    | normal => exact ih.executeLoop ran.rooted
    | returned value => exact .done (.refl ran.rooted ran.values)
  · exact .done (.self carries.rooted)

end RootsWith

/-- Every step from a rooted machine stops in a rooted machine. -/
theorem rootsWith (rules : Rules) (fuel : Nat) : RootsWith rules fuel := by
  induction fuel with
  | zero =>
    have cut : ∀ {α : Type} {values : α → List Value} {machine : Machine}, machine.Rooted →
        (OutcomeIn.cut machine : Outcome α).Roots machine values :=
      fun rooted => ⟨.self rooted, nofun⟩
    exact ⟨cut, cut, fun rooted _ _ => cut rooted, cut, cut, cut⟩
  | succ fuel ih =>
    exact ⟨ih.evaluate_succ, ih.evaluateAll_succ, ih.call_succ, ih.execute_succ,
      ih.executeAll_succ, ih.executeLoop_succ⟩

end Lox
