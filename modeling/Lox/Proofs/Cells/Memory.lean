import Mathlib.Data.List.Nodup
import Lox.Proofs.Cells.Semantics
import Lox.Proofs.Frames.Chain
import Lox.Proofs.Frames.Paired
import Lox.Proofs.Scoping.Own
import Lox.Proofs.Values

/-! Cells and the bindings of frames that they stand for.

Each cell has a place, which is a name in a frame other than the root, and no two cells
have the same one. The environment of a closure names the cells that are kept in the
frames of its chain. The chain may have more names than the environment: those that its
frames got after the closure was made.
-/

set_option autoImplicit false

namespace Lox.Cells

abbrev Places := List (Nat × String)

variable {places more : Places} {store grown : Store Lox.Value} {opened : Nat → Prop}
  {cells : List Value} {globals : List (String × Value)} {value : Lox.Value} {other : Value}

/-- The cells of a scope are kept in one frame, each under its own name. -/
def Kept (places : Places) (frame : Nat) (scope : List (String × Nat)) : Prop :=
  ∀ {name : String} {cell : Nat}, Frame.lookup name scope = some cell →
    places[cell]? = some (frame, name)

def Env.Lies (places : Places) (store : Store Lox.Value) (frame : Nat) (env : Env) : Prop :=
  store.Along (Kept places) frame env

/-- The scopes of an environment have the names that the regions declare so far. -/
def Env.Names (env : Env) (regions : List Region) : Prop :=
  List.Forall₂ (fun scope region => ∀ name,
    (Frame.lookup name scope).isSome = true ↔ name ∈ region.names) env regions

/-- The same constant, or the same closure, once with a frame and once with an
environment. -/
inductive Agrees (places : Places) (store : Store Lox.Value) : Lox.Value → Value → Prop where
  | literal (constant : Literal) : Agrees places store (.literal constant) (.literal constant)
  | native (function : Native) : Agrees places store (.native function) (.native function)
  | closure {function : Lox.Closure} {env : Env} {regions : List Region} :
      env.Lies places store function.env → env.Names regions → Stmt.AllProper function.body →
      Stmt.EveryUseIn Site.Exact (Region.ofFunction function.params function.body :: regions)
        function.body →
      Agrees places store (.closure function) (.closure (function.map Stmt.eraseAll fun _ => env))

theorem Kept.mono {frame : Nat} {scope : List (String × Nat)} (kept : Kept places frame scope)
    (layout : places <+: more) : Kept more frame scope :=
  fun found => getElem?_of_prefix layout (kept found)

theorem Env.Lies.mono {frame : Nat} {env : Env} (lies : env.Lies places store frame)
    (layout : places <+: more) (grows : store.Grows opened grown) : env.Lies more grown frame :=
  Store.Along.mono lies grows fun kept => kept.mono layout

theorem Agrees.mono (agrees : Agrees places store value other) (layout : places <+: more)
    (grows : store.Grows opened grown) : Agrees more grown value other := by
  cases agrees with
  | literal constant => exact .literal constant
  | native function => exact .native function
  | closure lies names proper uses => exact .closure (lies.mono layout grows) names proper uses

theorem Agrees.outline_eq (agrees : Agrees places store value other) :
    other.outline = value.outline := by
  cases agrees with
  | closure => simp [ValueIn.outline, ValueIn.map, ClosureIn.map]
  | _ => rfl

theorem Agrees.truthy_eq (agrees : Agrees places store value other) :
    other.truthy = value.truthy := by
  cases agrees <;> rfl

theorem Agrees.arity?_eq (agrees : Agrees places store value other) :
    other.arity? = value.arity? := by
  cases agrees <;> rfl

theorem Agrees.display_eq (agrees : Agrees places store value other) :
    other.display = value.display := by
  cases agrees <;> rfl

/-- Two results that go together, or the same failure. -/
inductive Results {α β : Type} (good : α → β → Prop) : Except Failure α → Except Failure β → Prop
  where
  | ok {result : α} {second : β} : good result second → Results good (.ok result) (.ok second)
  | error (failure : Failure) : Results good (.error failure) (.error failure)

theorem results_of_outline {result : Except Failure Lox.Value} {second : Except Failure Value}
    (same : second.map ValueIn.outline = result.map ValueIn.outline)
    (literal : ∀ value, result = .ok value → ∃ constant, value = .literal constant) :
    Results (Agrees places store) result second := by
  cases result with
  | error failure =>
    cases second with
    | error other => cases same; exact .error failure
    | ok value => cases same
  | ok value =>
    obtain ⟨constant, rfl⟩ := literal value rfl
    cases second with
    | error other => cases same
    | ok other =>
      cases other with
      | literal constant => cases same; exact .ok (.literal constant)
      | closure function => cases same
      | native function => cases same

theorem Agrees.unary (agrees : Agrees places store value other) (operator : Token) :
    Results (Agrees places store) (Operator.unary operator value) (Operator.unary operator other) := by
  apply results_of_outline
  · unfold ValueIn.outline
    rw [← Operator.unary_map, ← Operator.unary_map]
    exact congrArg (Operator.unary operator) agrees.outline_eq
  · exact fun _ => Operator.unary_literal

theorem Agrees.binary {right : Lox.Value} {otherRight : Value}
    (agrees : Agrees places store value other) (agreesRight : Agrees places store right otherRight)
    (operator : Token) :
    Results (Agrees places store) (Operator.binary operator value right)
      (Operator.binary operator other otherRight) := by
  apply results_of_outline
  · unfold ValueIn.outline
    rw [← Operator.binary_map, ← Operator.binary_map]
    exact congrArg₂ (Operator.binary operator) agrees.outline_eq agreesRight.outline_eq
  · exact fun _ => Operator.binary_literal

def SameGlobals (places : Places) (store : Store Lox.Value) :
    List (String × Lox.Value) → List (String × Value) → Prop :=
  List.Forall₂ fun bound other => bound.1 = other.1 ∧ Agrees places store bound.2 other.2

theorem SameGlobals.mono {bindings : List (String × Lox.Value)}
    (same : SameGlobals places store bindings globals) (layout : places <+: more)
    (grows : store.Grows opened grown) : SameGlobals more grown bindings globals :=
  Frame.Paired.mono same fun agrees => agrees.mono layout grows

theorem SameGlobals.bind {bindings : List (String × Lox.Value)}
    (same : SameGlobals places store bindings globals) (name : String)
    (agrees : Agrees places store value other) :
    SameGlobals places store (Frame.bind name value bindings) (Frame.bind name other globals) :=
  Frame.Paired.bind Frame.apart_eq same rfl agrees

theorem SameGlobals.lookup {bindings : List (String × Lox.Value)}
    (same : SameGlobals places store bindings globals) (name : String) :
    (Frame.lookup name bindings = none ∧ Frame.lookup name globals = none) ∨
      ∃ value other, Frame.lookup name bindings = some value ∧
        Frame.lookup name globals = some other ∧ Agrees places store value other :=
  Frame.Paired.lookup Frame.apart_eq same rfl

theorem SameGlobals.outline_eq {bindings : List (String × Lox.Value)}
    (same : SameGlobals places store bindings globals) :
    bindings.map (Prod.map id ValueIn.outline) = globals.map (Prod.map id ValueIn.outline) :=
  (Frame.Paired.map_eq same (fun told => told.symm) fun agrees => agrees.outline_eq).symm

/-- Cells and globals have the values of the bindings that they stand for. -/
structure Memory (places : Places) (store : Store Lox.Value) (cells : List Value)
    (globals : List (String × Value)) : Prop where
  length : places.length = cells.length
  nodup : places.Nodup
  root : store.Along (Kept places) 0 []
  held : ∀ {cell frame : Nat} {name : String}, places[cell]? = some (frame, name) →
    frame ≠ 0 ∧ ∃ value other, store.value? frame name = some value ∧
      cells[cell]? = some other ∧ Agrees places store value other
  globals : SameGlobals places store (store.bindings 0) globals

namespace Memory

variable {cell frame : Nat} {name : String}

/-- Replace the value of a cell, and of the binding that it stands for. -/
theorem update (memory : Memory places store cells globals)
    (place : places[cell]? = some (frame, name))
    (agrees : Agrees places (store.put frame name value) value other) :
    Memory places (store.put frame name value) (cells.set cell other) globals := by
  obtain ⟨notRoot, old, oldOther, bound, isCell, _⟩ := memory.held place
  have exist : frame < store.next := Store.lt_next_of_value? bound
  have binds : store.binds name frame = true := Store.binds_iff.mpr ⟨old, bound⟩
  have grows : store.Grows (fun _ => False) (store.put frame name value) := .put value (.inr binds)
  constructor
  · rw [memory.length, List.length_set]
  · exact memory.nodup
  · exact memory.root.mono grows id
  · intro second frame' name' placed
    obtain ⟨inner, first, firstOther, found, isOther, agree⟩ := memory.held placed
    refine ⟨inner, ?_⟩
    rw [Store.value?_put exist]
    -- Another cell has another place, so its binding is not the one that is replaced.
    by_cases same : cell = second
    · subst same
      rw [place, Option.some.injEq, Prod.mk.injEq] at placed
      rw [if_pos placed, List.getElem?_set_self (List.getElem?_eq_some_iff.mp isCell).1]
      exact ⟨value, other, rfl, rfl, agrees⟩
    · have apart : ¬ (frame = frame' ∧ name = name') := by
        rintro ⟨rfl, rfl⟩
        exact same ((List.getElem?_inj (List.getElem?_eq_some_iff.mp place).1 memory.nodup).mp
          (place.trans placed.symm))
      rw [if_neg apart, List.getElem?_set_ne same]
      exact ⟨first, firstOther, found, isOther, agree.mono (List.prefix_refl _) grows⟩
  · rw [Store.bindings_put exist, if_neg notRoot]
    exact memory.globals.mono (List.prefix_refl _) grows

theorem allocate (memory : Memory places store cells globals) (notRoot : frame ≠ 0)
    (exist : frame < store.next) (unbound : store.binds name frame = false)
    (agrees : Agrees (places ++ [(frame, name)]) (store.put frame name value) value other) :
    Memory (places ++ [(frame, name)]) (store.put frame name value) (cells ++ [other]) globals := by
  have layout : places <+: places ++ [(frame, name)] := List.prefix_append _ _
  have grows : store.Grows (fun _ => True) (store.put frame name value) := .put value (.inl trivial)
  have absent : (frame, name) ∉ places := by
    intro member
    obtain ⟨cell, place⟩ := List.mem_iff_getElem?.mp member
    obtain ⟨_, old, _, bound, _⟩ := memory.held place
    rw [Store.binds_eq, bound] at unbound
    cases unbound
  constructor
  · simp [memory.length]
  · exact List.concat_eq_append ▸ List.Nodup.concat absent memory.nodup
  · exact memory.root.mono grows fun kept => kept.mono layout
  · intro second frame' name' placed
    rw [Store.value?_put exist]
    -- No old cell has the place of the fresh one, since the name was not bound there.
    by_cases old : second < places.length
    · rw [List.getElem?_append_left old] at placed
      obtain ⟨inner, first, firstOther, found, isOther, agree⟩ := memory.held placed
      refine ⟨inner, first, firstOther, ?_, getElem?_of_prefix (List.prefix_append _ _) isOther, agree.mono layout grows⟩
      rw [if_neg]
      · exact found
      · rintro ⟨rfl, rfl⟩
        exact absent (List.mem_of_getElem? placed)
    · have last : second = places.length := by
        have bound := (List.getElem?_eq_some_iff.mp placed).1
        rw [List.length_append, List.length_singleton] at bound
        omega
      subst last
      rw [List.getElem?_concat_length, Option.some.injEq, Prod.mk.injEq] at placed
      obtain ⟨rfl, rfl⟩ := placed
      refine ⟨notRoot, value, other, if_pos ⟨rfl, rfl⟩, ?_, agrees⟩
      rw [memory.length, List.getElem?_concat_length]
  · rw [Store.bindings_put exist, if_neg notRoot]
    exact memory.globals.mono layout grows

theorem bindGlobal (memory : Memory places store cells globals)
    (agrees : Agrees places (store.put 0 name value) value other) :
    Memory places (store.put 0 name value) cells (Frame.bind name other globals) := by
  have exist : 0 < store.next := memory.root.exists_frame
  have grows : store.Grows (fun _ => True) (store.put 0 name value) := .put value (.inl trivial)
  constructor
  · exact memory.length
  · exact memory.nodup
  · exact memory.root.mono grows id
  · intro cell frame name' placed
    obtain ⟨inner, first, firstOther, found, isOther, agree⟩ := memory.held placed
    refine ⟨inner, first, firstOther, ?_, isOther, agree.mono (List.prefix_refl _) grows⟩
    rw [Store.value?_put exist, if_neg fun same => inner same.1.symm]
    exact found
  · rw [Store.bindings_put exist, if_pos rfl]
    exact (memory.globals.mono (List.prefix_refl _) grows).bind name agrees

theorem add (memory : Memory places store cells globals) (parent : Option Nat) :
    Memory places (store.add parent) cells globals := by
  have grows : store.Grows (fun _ => True) (store.add parent) := .add store parent
  constructor
  · exact memory.length
  · exact memory.nodup
  · exact memory.root.mono grows id
  · intro cell frame name placed
    obtain ⟨inner, first, firstOther, found, isOther, agree⟩ := memory.held placed
    refine ⟨inner, first, firstOther, ?_, isOther, agree.mono (List.prefix_refl _) grows⟩
    rw [Store.value?_add]
    exact found
  · rw [Store.bindings_add memory.root.exists_frame]
    exact memory.globals.mono (List.prefix_refl _) grows

end Memory

end Lox.Cells
