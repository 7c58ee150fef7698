import Lox.Proofs.Frames.Growth
import Lox.Proofs.Scoping.Resolved

/-! Frames in the regions of their text.

Each frame but the root belongs to the text of one block or call. A store is
settled if a frame binds only names that its text declares, and if each closure
stands in a chain of frames that bind what its regions declare so far. A machine
stands in regions if the chain of its current frame does.
-/

set_option autoImplicit false

namespace Lox

variable {allowed : Site → Prop} {wholes more : List (List String)} {store grown : Store Value}
  {opened : Nat → Prop} {regions : List Region} {id : Nat}

/-- A frame of a region's text binds what the region declares so far. -/
structure Region.Holds (wholes : List (List String)) (store : Store Value) (id : Nat)
    (region : Region) : Prop where
  whole : wholes[id]? = some region.whole
  names : ∀ name ∈ region.names, store.binds name id = true

def Region.Fits (wholes : List (List String)) (store : Store Value) (id : Nat)
    (regions : List Region) : Prop :=
  store.Along (Region.Holds wholes store) id regions

theorem Region.Holds.mono {region : Region} (holds : region.Holds wholes store id)
    (layout : wholes <+: more) (grows : store.Grows opened grown) : region.Holds more grown id where
  whole := getElem?_of_prefix layout holds.whole
  names name member := grows.keeps (holds.names name member)

theorem Region.Fits.mono (fits : Region.Fits wholes store id regions) (layout : wholes <+: more)
    (grows : store.Grows opened grown) : Region.Fits more grown id regions :=
  Store.Along.mono fits grows fun holds => holds.mono layout grows

theorem Region.Fits.declare {name : Token} (fits : Region.Fits wholes store id regions)
    (binds : store.binds name.lexeme id = true) :
    Region.Fits wholes store id (Region.declare name regions) := by
  cases regions with
  | nil => exact fits
  | cons inner outer =>
    obtain ⟨_, _, _, holds, _⟩ := Store.Along.chain_inner fits
    apply Store.Along.change fits
    refine ⟨holds.whole, ?_⟩
    intro other member
    rcases List.mem_cons.mp member with rfl | member
    · exact binds
    · exact holds.names other member

/-- A name is declared by the text of the innermost region, if there is one. -/
def Region.Open (regions : List Region) (name : String) : Prop :=
  ∀ region ∈ regions.head?, name ∈ region.whole

theorem Region.open_nil (name : String) : Region.Open [] name := by
  simp [Region.Open]

theorem Region.open_of_nothing {stmt : Stmt} (nothing : stmt.declared = []) :
    ∀ name ∈ stmt.declared, Region.Open regions name := by
  simp [nothing]

theorem Region.open_ofBlock {body : List Stmt} :
    ∀ name ∈ Stmt.declaredIn body, Region.Open (Region.ofBlock body :: regions) name := by
  intro name declared region here
  cases here
  exact declared

theorem Region.open_ofFunction {params : List Token} {body : List Stmt} :
    ∀ name ∈ Stmt.declaredIn body, Region.Open (Region.ofFunction params body :: regions) name := by
  intro name declared region here
  cases here
  exact List.mem_append_right _ declared

theorem Region.open_behind {stmt : Stmt} {name : String} (opens : Region.Open regions name) :
    Region.Open (stmt.behind regions) name := by
  have declare : ∀ token, Region.Open (Region.declare token regions) name := by
    intro token
    cases regions with
    | nil => exact opens
    | cons inner outer => simpa [Region.Open, Region.declare] using opens
  cases stmt with
  | varDecl token initializer => exact declare token
  | funDecl token params body => exact declare token
  | _ => exact opens

section
variable {first : Stmt} {others : List Stmt}

theorem Region.open_first
    (opens : ∀ name ∈ Stmt.declaredIn (first :: others), Region.Open regions name) :
    ∀ name ∈ first.declared, Region.Open regions name :=
  fun name member => opens name (List.mem_append_left _ member)

theorem Region.open_others
    (opens : ∀ name ∈ Stmt.declaredIn (first :: others), Region.Open regions name) :
    ∀ name ∈ Stmt.declaredIn others, Region.Open (first.behind regions) name :=
  fun name member => Region.open_behind (opens name (List.mem_append_right _ member))

end

theorem Region.Fits.root_or_declared {name : String} (fits : Region.Fits wholes store id regions)
    (declared : Region.Open regions name) :
    id = 0 ∨ ∃ whole, wholes[id]? = some whole ∧ name ∈ whole := by
  cases fits with
  | root => exact .inl rfl
  | inner _ _ _ holds _ => exact .inr ⟨_, holds.whole, declared _ rfl⟩

theorem Region.Fits.located {name : String} {distance : Nat}
    (fits : Region.Fits wholes store id regions)
    (same : Region.distance? regions name = some distance) :
    ∃ found, (store.chain id)[distance]? = some found ∧ found ≠ 0 ∧ store.binds name found = true := by
  obtain ⟨region, here, declares⟩ : ∃ region, regions[distance]? = some region ∧ name ∈ region.names := by
    obtain ⟨bound, declares, _⟩ := List.findIdx?_eq_some_iff_getElem.mp same
    exact ⟨regions[distance], List.getElem?_eq_getElem bound, by simpa using declares⟩
  obtain ⟨found, at_, notRoot, holds⟩ := Store.Along.chain_getElem? fits here
  exact ⟨found, at_, notRoot, holds.names name declares⟩

def ClosureIn.Settled (allowed : Site → Prop) (wholes : List (List String)) (store : Store Value)
    (function : Closure) : Prop :=
  ∃ regions, Region.Fits wholes store function.env regions ∧ Stmt.AllProper function.body ∧
    Stmt.EveryUseIn allowed (Region.ofFunction function.params function.body :: regions)
      function.body

def ValueIn.Settled (allowed : Site → Prop) (wholes : List (List String)) (store : Store Value) :
    Value → Prop
  | .closure function => function.Settled allowed wholes store
  | .literal _ | .native _ => True

theorem ValueIn.Settled.mono {value : Value} (settled : value.Settled allowed wholes store)
    (layout : wholes <+: more) (grows : store.Grows opened grown) :
    value.Settled allowed more grown := by
  cases value with
  | closure function =>
    obtain ⟨regions, fits, rest⟩ := settled
    exact ⟨regions, fits.mono layout grows, rest⟩
  | _ => trivial

structure Store.Settled (allowed : Site → Prop) (wholes : List (List String))
    (store : Store Value) : Prop where
  length : wholes.length = store.next
  root : Region.Fits wholes store 0 []
  within : ∀ {id : Nat} {name : String}, id ≠ 0 → store.binds name id = true →
    ∃ whole, wholes[id]? = some whole ∧ name ∈ whole
  values : ∀ {id : Nat} {name : String} {value : Value}, store.value? id name = some value →
    value.Settled allowed wholes store

namespace Store.Settled

/-- A value may be bound to a name that the frame has or that its text declares, if it
is settled once it is bound. -/
theorem put {name : String} {value : Value} (settled : store.Settled allowed wholes)
    (settledValue : value.Settled allowed wholes (store.put id name value))
    (known : id = 0 ∨ store.binds name id = true ∨ ∃ whole, wholes[id]? = some whole ∧ name ∈ whole) :
    (store.put id name value).Settled allowed wholes := by
  have grows : store.Grows (fun _ => True) (store.put id name value) := .put value (.inl trivial)
  by_cases exist : id < store.next
  · constructor
    · rw [settled.length, Store.next_put]
    · exact settled.root.mono (List.prefix_refl _) grows
    · intro other found notRoot binds
      -- Only the bound name can be new, and its frame may bind it.
      rcases (Store.binds_put exist ..).mp binds with ⟨rfl, rfl⟩ | binds
      · rcases known with root | binds | declared
        · exact absurd root notRoot
        · exact settled.within notRoot binds
        · exact declared
      · exact settled.within notRoot binds
    · intro other found bound read
      rw [Store.value?_put exist] at read
      split at read
      · cases read
        exact settledValue
      · exact (settled.values read).mono (List.prefix_refl _) grows
  · rw [Store.put_of_le (Nat.le_of_not_lt exist)]
    exact settled

theorem add (settled : store.Settled allowed wholes) (whole : List String) (parent : Nat) :
    (store.add (some parent)).Settled allowed (wholes ++ [whole]) := by
  have grows : store.Grows (fun _ => True) (store.add (some parent)) := .add store _
  constructor
  · simp [settled.length]
  · exact settled.root.mono (List.prefix_append _ _) grows
  · intro id name notRoot binds
    rw [Store.binds_eq, Store.value?_add, ← Store.binds_eq] at binds
    obtain ⟨found, here, member⟩ := settled.within notRoot binds
    exact ⟨found, getElem?_of_prefix (List.prefix_append _ _) here, member⟩
  · intro id name value read
    rw [Store.value?_add] at read
    exact (settled.values read).mono (List.prefix_append _ _) grows

end Store.Settled

/-- The store is settled, and the current chain holds the regions. -/
structure Machine.Stands (allowed : Site → Prop) (wholes : List (List String))
    (regions : List Region) (machine : Machine) : Prop where
  settled : machine.store.Settled allowed wholes
  fits : Region.Fits wholes machine.store machine.frame regions

theorem Region.Fits.define {machine : Machine} {name : Token} (value : Value)
    (fits : Region.Fits wholes machine.store machine.frame regions) :
    Region.Fits wholes (machine.define name.lexeme value).store machine.frame
      (Region.declare name regions) := by
  have exist : machine.frame < machine.store.next := Store.Along.exists_frame fits
  have grown := fits.mono (List.prefix_refl _) (machine.extended_define name.lexeme value).grows
  exact grown.declare ((Store.binds_put exist ..).mpr (.inl ⟨rfl, rfl⟩))

namespace Machine.Stands

variable {machine : Machine}

theorem defineIn {name : Token} {value : Value} (stands : machine.Stands allowed wholes regions)
    (settled : value.Settled allowed wholes (machine.define name.lexeme value).store)
    (declared : Region.Open regions name.lexeme) :
    (machine.define name.lexeme value).Stands allowed wholes (Region.declare name regions) :=
  ⟨stands.settled.put settled ((stands.fits.root_or_declared declared).imp_right .inr),
    stands.fits.define value⟩

theorem define {name : Token} {value : Value} (stands : machine.Stands allowed wholes regions)
    (settled : value.Settled allowed wholes machine.store)
    (declared : Region.Open regions name.lexeme) :
    (machine.define name.lexeme value).Stands allowed wholes (Region.declare name regions) :=
  stands.defineIn
    (settled.mono (List.prefix_refl _) (machine.extended_define name.lexeme value).grows) declared

theorem enter {whole : List String} {parent : Nat} (settled : machine.store.Settled allowed wholes)
    (fits : Region.Fits wholes machine.store parent regions) :
    (machine.enter parent).Stands allowed (wholes ++ [whole]) (⟨[], whole⟩ :: regions) := by
  refine ⟨settled.add whole parent, ?_⟩
  have outer : Region.Fits (wholes ++ [whole]) (machine.store.add (some parent)) parent regions :=
    fits.mono (List.prefix_append _ _) (@Store.Grows.add _ (fun _ => True) _ _)
  refine .inner (Store.frame?_add_next ..) rfl (Store.Along.exists_frame fits) ⟨?_, ?_⟩ outer
  · change (wholes ++ [whole])[machine.store.next]? = some whole
    rw [← settled.length, List.getElem?_concat_length]
  · simp

theorem enterBlock (stands : machine.Stands allowed wholes regions) (body : List Stmt) :
    (machine.enter machine.frame).Stands allowed (wholes ++ [(Region.ofBlock body).whole])
      (Region.ofBlock body :: regions) :=
  enter stands.settled stands.fits

theorem defineAll {params : List Token} {arguments : List Value} {names whole : List String}
    (stands : machine.Stands allowed wholes (⟨names, whole⟩ :: regions))
    (settled : ∀ argument ∈ arguments, argument.Settled allowed wholes machine.store)
    (same : params.length = arguments.length) (declared : ∀ param ∈ params, param.lexeme ∈ whole) :
    (machine.defineAll params arguments).Stands allowed wholes
      (⟨(params.map (·.lexeme)).reverse ++ names, whole⟩ :: regions) := by
  induction params generalizing arguments machine names with
  | nil => exact stands
  | cons param params ih =>
    cases arguments with
    | nil => cases same
    | cons argument arguments =>
      have opens : Region.Open (⟨names, whole⟩ :: regions) param.lexeme := by
        simpa [Region.Open] using declared param List.mem_cons_self
      have bound := stands.define (settled argument List.mem_cons_self) opens
      have rest : ∀ other ∈ arguments, other.Settled allowed wholes
          (machine.define param.lexeme argument).store := fun other member =>
        (settled other (.tail _ member)).mono (List.prefix_refl _)
          (machine.extended_define param.lexeme argument).grows
      have all := ih bound rest (Nat.succ.inj same) fun other member =>
        declared other (.tail _ member)
      -- The names are kept with the latest first, so the first parameter is the innermost item.
      rw [List.map_cons, List.reverse_cons, List.append_assoc]
      exact all

theorem enterCall {function : Closure} {arguments : List Value}
    (settled : machine.store.Settled allowed wholes)
    (fits : Region.Fits wholes machine.store function.env regions)
    (settledAll : ∀ argument ∈ arguments, argument.Settled allowed wholes machine.store)
    (same : function.params.length = arguments.length) :
    (machine.enterCall function arguments).Stands allowed
      (wholes ++ [(Region.ofFunction function.params function.body).whole])
      (Region.ofFunction function.params function.body :: regions) := by
  -- The new frame belongs to the text of the function before it binds any parameter.
  have inside : { machine.enter function.env with depth := machine.depth + 1 }.Stands allowed
      (wholes ++ [(Region.ofFunction function.params function.body).whole])
      (⟨[], (Region.ofFunction function.params function.body).whole⟩ :: regions) :=
    have entered := enter settled fits
    ⟨entered.settled, entered.fits⟩
  have bound := inside.defineAll
    (fun argument member => (settledAll argument member).mono (List.prefix_append _ _)
      (@Store.Grows.add _ (fun _ => True) _ _))
    same fun param member => List.mem_append_left _ (List.mem_map_of_mem member)
  rwa [List.append_nil] at bound

end Machine.Stands

end Lox
