import Lox.Proofs.Cells.Memory
import Lox.Proofs.Frames.Growth

/-! A machine and the state that mirrors it at one place of a program.

Away from all scopes the two have the same memory. Inside scopes the environment also
lies along the chain of the current frame and has the names of the regions, and the
current frame has no names but those of the innermost scope.
-/

set_option autoImplicit false

namespace Lox.Cells

variable {places more : Places} {regions : List Region} {machine after : Machine}
  {state after' : State} {value : Lox.Value} {other : Value} {env : Env}

namespace Env.Names

/-- A name has a distance if and only if it has a cell, which stands in the scope at
that distance. -/
theorem cell?_eq (names : env.Names regions) (name : String) :
    (Region.distance? regions name = none ∧ env.cell? name = none) ∨
      ∃ distance scope cell, Region.distance? regions name = some distance ∧
        env[distance]? = some scope ∧ Frame.lookup name scope = some cell ∧
        env.cell? name = some cell := by
  induction names with
  | nil => exact .inl ⟨rfl, rfl⟩
  | @cons scope region outer regions here _ ih =>
    -- On both sides the first scope that has the name decides.
    unfold Region.distance? Env.cell? at ih ⊢
    rw [List.findIdx?_cons, List.findSome?_cons]
    cases found : Frame.lookup name scope with
    | some cell =>
      have member : name ∈ region.names := (here name).mp (by rw [found]; rfl)
      exact .inr ⟨0, scope, cell, by simp [member], rfl, found, rfl⟩
    | none =>
      have absent : name ∉ region.names := fun member => by
        have isSome := (here name).mpr member
        rw [found] at isSome
        cases isSome
      rcases ih with ⟨none_, noCell⟩ | ⟨distance, scope', cell, same, at_, isCell, cellOf⟩
      · exact .inl ⟨by simp [absent, none_], noCell⟩
      · exact .inr ⟨distance + 1, scope', cell, by simp [absent, same], at_, isCell, cellOf⟩

theorem declare (names : env.Names regions) (name : Token) (fresh : Nat) :
    (env.declare name.lexeme fresh).Names (Region.declare name regions) := by
  cases names with
  | nil => exact .nil
  | @cons scope region outer regions here rest =>
    cases found : Frame.lookup name.lexeme scope with
    | some cell =>
      rw [Env.declare_of_some found]
      refine .cons (fun other => ?_) rest
      have known : name.lexeme ∈ region.names := (here name.lexeme).mp (by rw [found]; rfl)
      rw [here other, List.mem_cons]
      constructor
      · exact .inr
      · rintro (rfl | member)
        · exact known
        · exact member
    | none =>
      rw [Env.declare_of_none found]
      refine .cons (fun other => ?_) rest
      unfold Frame.lookup
      rw [List.mem_cons]
      by_cases same : name.lexeme = other
      · simp [same]
      · rw [if_neg same, here other]
        simp [Ne.symm same]

end Env.Names

structure Matches (places : Places) (machine : Machine) (state : State) : Prop where
  memory : Memory places machine.store state.cells state.globals
  printed : machine.printed = state.printed
  closures : machine.closures = state.closures
  readings : machine.readings = state.readings

structure Mirrors (places : Places) (regions : List Region) (machine : Machine) (state : State) :
    Prop where
  matched : Matches places machine state
  depth : machine.depth = state.depth
  lies : state.env.Lies places machine.store machine.frame
  names : state.env.Names regions
  full : ∀ scope ∈ state.env.head?, ∀ name, machine.store.binds name machine.frame = true →
    (Frame.lookup name scope).isSome = true

namespace Mirrors

/-- Where no frame got a new name, the environment is as good as before. -/
theorem unmoved (mirrors : Mirrors places regions machine state) (layout : places <+: more)
    (unmoved : machine.Unmoved after) (matched : Matches more after after')
    (sameEnv : after'.env = state.env) (sameDepth : after'.depth = state.depth) :
    Mirrors more regions after after' := by
  constructor
  · exact matched
  · rw [unmoved.depth, sameDepth, mirrors.depth]
  · rw [unmoved.frame, sameEnv]
    exact mirrors.lies.mono layout unmoved.grows
  · rw [sameEnv]
    exact mirrors.names
  · rw [unmoved.frame, sameEnv]
    intro scope here name binds
    exact mirrors.full scope here name
      (unmoved.grows.adds mirrors.lies.exists_frame not_false binds)

theorem enter {parent depth depth' : Nat} (whole : List String)
    (matched : Matches places machine state) (lies : env.Lies places machine.store parent)
    (names : env.Names regions) (same : depth = depth') :
    Mirrors places (⟨[], whole⟩ :: regions) { machine.enter parent with depth := depth }
      { state.enter env with depth := depth' } := by
  have grows : machine.store.Grows (fun _ => True) (machine.store.add (some parent)) := .add _ _
  constructor
  · exact ⟨matched.memory.add (some parent), matched.printed, matched.closures, matched.readings⟩
  · exact same
  -- The new scope has no cells, so nothing in it has to lie in the new frame.
  · refine .inner (Store.frame?_add_next ..) rfl lies.exists_frame ?_
      (lies.mono (List.prefix_refl _) grows)
    intro name cell found
    cases found
  · refine .cons ?_ names
    intro name
    simp [Frame.lookup]
  -- Nor does the new frame bind a name that the scope would have to have.
  · intro scope _ name binds
    have read := (Store.binds_eq ..).symm.trans binds
    have empty : (machine.store.add (some parent)).value? machine.store.next name = none := by
      rw [Store.value?_add]
      exact Option.eq_none_iff_forall_ne_some.mpr fun value found =>
        Nat.lt_irrefl _ (Store.lt_next_of_value? found)
    change ((machine.store.add (some parent)).value? machine.store.next name).isSome = true at read
    rw [empty] at read
    cases read

theorem local_place {distance : Nat} {scope : List (String × Nat)} {cell : Nat} {name : String}
    (mirrors : Mirrors places regions machine state) (at_ : state.env[distance]? = some scope)
    (found : Frame.lookup name scope = some cell) :
    ∃ frame, (machine.store.chain machine.frame)[distance]? = some frame ∧
      places[cell]? = some (frame, name) := by
  obtain ⟨frame, here, _, kept⟩ := Store.Along.chain_getElem? mirrors.lies at_
  exact ⟨frame, here, kept found⟩

theorem read {name : Token} {distance : Option Nat}
    (mirrors : Mirrors places regions machine state)
    (exact_ : distance = Region.distance? regions name.lexeme) :
    Results (Agrees places machine.store) (machine.read .lexical name distance) (state.read name) := by
  have memory := mirrors.matched.memory
  rcases mirrors.names.cell?_eq name.lexeme with ⟨global, noCell⟩ |
    ⟨steps, scope, cell, same, at_, found, isCell⟩
  · rw [exact_, global]
    unfold Machine.read State.read State.value?
    dsimp only [Machine.searchFrame, Machine.globals]
    rw [noCell, memory.root.get?_root, Store.value?_eq_lookup]
    rcases memory.globals.lookup name.lexeme with ⟨absent, noOther⟩ |
      ⟨value, other, bound, isOther, agrees⟩
    · rw [absent]
      dsimp only
      rw [noOther]
      exact .error _
    · rw [bound]
      dsimp only
      rw [isOther]
      exact .ok agrees
  -- A local name: its cell stands for the binding in the frame at its distance.
  · obtain ⟨frame, here, place⟩ := mirrors.local_place at_ found
    obtain ⟨_, value, other, bound, isOther, agrees⟩ := memory.held place
    rw [exact_, same]
    unfold Machine.read State.read State.value? Store.getAt
    dsimp only
    rw [here, isCell]
    dsimp only
    rw [bound, isOther]
    exact .ok agrees

theorem assign {name : Token} {distance : Option Nat}
    (mirrors : Mirrors places regions machine state)
    (exact_ : distance = Region.distance? regions name.lexeme)
    (agrees : Agrees places machine.store value other) :
    Results (fun found after => Mirrors places regions (machine.replace found name.lexeme value) after)
      (machine.locate .lexical name distance) (state.assign name other) := by
  have memory := mirrors.matched.memory
  have moves : ∀ {found : Nat}, machine.store.binds name.lexeme found = true →
      machine.Unmoved (machine.replace found name.lexeme value) ∧
        Agrees places (machine.store.put found name.lexeme value) value other := fun binds =>
    have unmoved := Machine.unmoved_replace value binds
    ⟨unmoved, agrees.mono (List.prefix_refl _) unmoved.grows⟩
  rcases mirrors.names.cell?_eq name.lexeme with ⟨global, noCell⟩ |
    ⟨steps, scope, cell, same, at_, found, isCell⟩
  · rw [exact_, global]
    unfold Machine.locate State.assign
    dsimp only [Machine.searchFrame, Machine.globals]
    rw [noCell, memory.root.holder?_root, Store.binds_eq, Store.value?_eq_lookup]
    rcases memory.globals.lookup name.lexeme with ⟨absent, noOther⟩ |
      ⟨old, oldOther, bound, isOther, _⟩
    · rw [absent]
      dsimp only
      rw [noOther]
      exact .error _
    · rw [bound]
      dsimp only
      rw [isOther]
      obtain ⟨unmoved, agree⟩ := @moves 0 (by
        rw [Store.binds_eq, Store.value?_eq_lookup]
        exact congrArg Option.isSome bound)
      exact .ok (mirrors.unmoved (List.prefix_refl _) unmoved
        ⟨memory.bindGlobal agree, mirrors.matched.printed, mirrors.matched.closures,
          mirrors.matched.readings⟩ rfl rfl)
  -- A local name: both sides replace the same value.
  · obtain ⟨frame, here, place⟩ := mirrors.local_place at_ found
    obtain ⟨_, old, oldOther, bound, _, _⟩ := memory.held place
    have binds := Store.binds_iff.mpr ⟨old, bound⟩
    obtain ⟨unmoved, agree⟩ := moves binds
    rw [exact_, same]
    unfold Machine.locate State.assign Store.locate
    dsimp only
    rw [here, isCell]
    dsimp only
    rw [if_pos binds]
    exact .ok (mirrors.unmoved (List.prefix_refl _) unmoved
      ⟨memory.update place agree, mirrors.matched.printed, mirrors.matched.closures,
        mirrors.matched.readings⟩ rfl rfl)

theorem binds_define {name found : String} (mirrors : Mirrors places regions machine state)
    (binds : (machine.define name value).store.binds found machine.frame = true) :
    name = found ∨ machine.store.binds found machine.frame = true :=
  ((Store.binds_put mirrors.lies.exists_frame ..).mp binds).imp_left And.right

section
variable {name : Token} {scope : List (String × Nat)} {outer : Env}

/-- A value agrees once a name is bound to it. A closure may lie in the environment that
has the name. -/
def AgreesBound (places : Places) (machine : Machine) (state : State) (name : Token)
    (value : Lox.Value) (other : Value) : Prop :=
  ∀ more, places <+: more →
    (state.env.declare name.lexeme state.cells.length).Lies more
      (machine.define name.lexeme value).store machine.frame →
    Agrees more (machine.define name.lexeme value).store value other

theorem declare_outside (mirrors : Mirrors places regions machine state)
    (agrees : AgreesBound places machine state name value other) (outside : state.env = []) :
    Mirrors places (Region.declare name regions) (machine.define name.lexeme value)
      (state.declare name.lexeme other) := by
  have grows := (machine.extended_define name.lexeme value).grows
  have names := mirrors.names.declare name state.cells.length
  have lies := mirrors.lies
  unfold AgreesBound at agrees
  rw [outside] at agrees lies names
  have still := lies.mono (List.prefix_refl _) grows
  have agree := agrees places (List.prefix_refl _) still
  have matched := mirrors.matched
  rw [State.declare_of_outside outside]
  constructor
  · refine ⟨?_, matched.printed, matched.closures, matched.readings⟩
    unfold Machine.define at agree ⊢
    rw [lies.eq_zero] at agree ⊢
    exact matched.memory.bindGlobal agree
  · exact mirrors.depth
  · exact outside ▸ still
  · exact outside ▸ names
  · simp [outside]

theorem declare_known {cell : Nat} (mirrors : Mirrors places regions machine state)
    (agrees : AgreesBound places machine state name value other)
    (inside : state.env = scope :: outer) (found : Frame.lookup name.lexeme scope = some cell) :
    Mirrors places (Region.declare name regions) (machine.define name.lexeme value)
      (state.declare name.lexeme other) := by
  have grows := (machine.extended_define name.lexeme value).grows
  have names := mirrors.names.declare name state.cells.length
  have lies := mirrors.lies
  unfold AgreesBound at agrees
  rw [inside] at agrees lies names
  rw [Env.declare_of_some found] at agrees names
  -- The value agrees in the environment as it is, which has the name already.
  have still := lies.mono (List.prefix_refl _) grows
  obtain ⟨_, _, _, kept, _⟩ := Store.Along.chain_inner lies
  have matched := mirrors.matched
  rw [State.declare_of_some inside found]
  constructor
  · exact ⟨matched.memory.update (kept found) (agrees places (List.prefix_refl _) still),
      matched.printed, matched.closures, matched.readings⟩
  · exact mirrors.depth
  · exact inside ▸ still
  · exact inside ▸ names
  · intro innermost here other binds
    rcases mirrors.binds_define binds with rfl | binds
    · rw [inside] at here
      cases here
      exact congrArg Option.isSome found
    · exact mirrors.full innermost here other binds

theorem declare_fresh (mirrors : Mirrors places regions machine state)
    (agrees : AgreesBound places machine state name value other)
    (inside : state.env = scope :: outer) (absent : Frame.lookup name.lexeme scope = none) :
    Mirrors (places ++ [(machine.frame, name.lexeme)]) (Region.declare name regions)
      (machine.define name.lexeme value) (state.declare name.lexeme other) := by
  have layout : places <+: places ++ [(machine.frame, name.lexeme)] := List.prefix_append _ _
  have grows := (machine.extended_define name.lexeme value).grows
  have names := mirrors.names.declare name state.cells.length
  have lies := mirrors.lies
  unfold AgreesBound at agrees
  rw [inside] at agrees lies names
  rw [Env.declare_of_none absent] at agrees names
  obtain ⟨_, _, notRoot, kept, _⟩ := Store.Along.chain_inner lies
  have matched := mirrors.matched
  -- The current frame has no names but those of the innermost scope.
  have unbound : machine.store.binds name.lexeme machine.frame = false := by
    rw [Bool.eq_false_iff]
    intro binds
    have isSome := mirrors.full scope (by rw [inside]; rfl) name.lexeme binds
    rw [absent] at isSome
    cases isSome
  have still : Env.Lies (places ++ [(machine.frame, name.lexeme)])
      (machine.define name.lexeme value).store machine.frame
      (((name.lexeme, state.cells.length) :: scope) :: outer) := by
    apply Store.Along.change (lies.mono layout grows)
    intro other cell isCell
    unfold Frame.lookup at isCell
    split at isCell
    next same =>
      cases isCell
      rw [← matched.memory.length, List.getElem?_concat_length, same]
    next => exact kept.mono layout isCell
  rw [State.declare_of_none inside absent]
  constructor
  · exact ⟨matched.memory.allocate notRoot mirrors.lies.exists_frame unbound
      (agrees _ layout still), matched.printed, matched.closures, matched.readings⟩
  · exact mirrors.depth
  · exact still
  · exact names
  · rintro innermost here other binds
    cases here
    unfold Frame.lookup
    split
    · rfl
    next differs =>
      rcases mirrors.binds_define binds with same | binds
      · exact absurd same differs
      · exact mirrors.full scope (by rw [inside]; rfl) other binds

theorem declareIn (mirrors : Mirrors places regions machine state)
    (agrees : AgreesBound places machine state name value other) :
    ∃ more, places <+: more ∧ Mirrors more (Region.declare name regions)
      (machine.define name.lexeme value) (state.declare name.lexeme other) := by
  cases inside : state.env with
  | nil => exact ⟨places, List.prefix_refl _, mirrors.declare_outside agrees inside⟩
  | cons scope outer =>
    cases found : Frame.lookup name.lexeme scope with
    | some cell =>
      exact ⟨places, List.prefix_refl _, mirrors.declare_known agrees inside found⟩
    | none => exact ⟨_, List.prefix_append _ _, mirrors.declare_fresh agrees inside found⟩

theorem declare (mirrors : Mirrors places regions machine state)
    (agrees : Agrees places machine.store value other) :
    ∃ more, places <+: more ∧ Mirrors more (Region.declare name regions)
      (machine.define name.lexeme value) (state.declare name.lexeme other) :=
  mirrors.declareIn fun _ layout _ =>
    agrees.mono layout (machine.extended_define name.lexeme value).grows

end

theorem declareAll {params : List Token} {arguments : List Lox.Value} {others : List Value}
    {names whole : List String}
    (mirrors : Mirrors places (⟨names, whole⟩ :: regions) machine state)
    (agree : List.Forall₂ (Agrees places machine.store) arguments others)
    (same : params.length = arguments.length) :
    ∃ more, places <+: more ∧
      Mirrors more (⟨(params.map (·.lexeme)).reverse ++ names, whole⟩ :: regions)
        (machine.defineAll params arguments) (state.declareAll params others) := by
  induction params generalizing arguments others places machine state names with
  | nil => exact ⟨places, List.prefix_refl _, mirrors⟩
  | cons param params ih =>
    cases agree with
    | nil => cases same
    | @cons argument other arguments others first rest =>
      obtain ⟨more, layout, bound⟩ := mirrors.declare first
      have grows := (machine.extended_define param.lexeme argument).grows
      have agreeRest := List.Forall₂.imp (fun _ _ (agrees : Agrees places machine.store _ _) =>
        agrees.mono layout grows) rest
      obtain ⟨most, further, all⟩ := ih bound agreeRest (Nat.succ.inj same)
      rw [List.map_cons, List.reverse_cons, List.append_assoc]
      exact ⟨most, layout.trans further, all⟩

theorem enterCall {function : Lox.Closure} {arguments : List Lox.Value} {others : List Value}
    (mirrors : Mirrors places regions machine state) {around : List Region}
    (lies : env.Lies places machine.store function.env) (names : env.Names around)
    (agree : List.Forall₂ (Agrees places machine.store) arguments others)
    (same : function.params.length = arguments.length) :
    ∃ more, places <+: more ∧
      Mirrors more (Region.ofFunction function.params function.body :: around)
        (machine.enterCall function arguments)
        ({ state.enter env with depth := state.depth + 1 }.declareAll function.params others) := by
  have inside := Mirrors.enter (Region.ofFunction function.params function.body).whole
    mirrors.matched lies names (congrArg (· + 1) mirrors.depth)
  have grows : machine.store.Grows (fun _ => True) (machine.store.add (some function.env)) :=
    .add _ _
  have agreeInside := List.Forall₂.imp (fun _ _ (agrees : Agrees places machine.store _ _) =>
    agrees.mono (List.prefix_refl _) grows) agree
  obtain ⟨more, layout, bound⟩ := inside.declareAll agreeInside same
  rw [List.append_nil] at bound
  exact ⟨more, layout, bound⟩

end Mirrors

end Lox.Cells
