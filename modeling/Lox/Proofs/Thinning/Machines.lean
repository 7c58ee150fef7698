import Lox.Proofs.Run.Pairs
import Lox.Proofs.Run.Rooted
import Lox.Proofs.Thinning.Memory

/-! Machines of a program, and of the same program without some of its scopes.

The chains of their current frames stand beside each other. What one reads, assigns or
defines, the other does at the distance without the scopes that are left out. A scope that is
left out is entered on one side only.
-/

set_option autoImplicit false

namespace Lox

variable {twins more : Twins} {kept : List Bool} {machine other : Machine} {value second : Value}

structure Machine.Thinned (twins : Twins) (machine other : Machine) : Prop where
  store : machine.store.Thinned twins other.store
  printed : other.printed = machine.printed
  closures : other.closures = machine.closures
  readings : other.readings = machine.readings

/-- Both machines stand in the same place, but for the scopes that are left out. -/
structure Machine.ThinnedAt (twins : Twins) (kept : List Bool) (machine other : Machine) : Prop where
  thinned : machine.Thinned twins other
  depth : other.depth = machine.depth
  beside : machine.store.Beside twins other.store kept machine.frame other.frame

namespace Machine.ThinnedAt

theorem here (both : machine.ThinnedAt twins kept other) (keeps : keptAt kept 0 = true) :
    HasTwin twins machine.frame other.frame := by
  have found := both.beside.chain_getElem? both.thinned.store.root keeps
  obtain ⟨⟨_, along⟩, _, otherAlong⟩ := both.beside.along
  rw [shortened_zero, along.chain_zero, otherAlong.chain_zero] at found
  rcases found with ⟨none, _⟩ | ⟨_, _, isHere, isThere, has⟩
  · cases none
  · cases isHere
    cases isThere
    exact has

theorem read (both : machine.ThinnedAt twins kept other) (name : Token)
    {distance slim : Option Nat} (use : ThinnedUse kept distance slim) :
    ResultPairs (ValueIn.Thinned twins machine.store other.store) (· = ·)
      (machine.read .lexical name distance) (other.read .lexical name slim) := by
  have store := both.thinned.store
  obtain ⟨keeps, rfl⟩ := use
  cases distance with
  | none =>
    unfold Machine.read
    dsimp only [searchFrame, globals, Option.map_none]
    rw [store.roots.1.get?_root, store.roots.2.get?_root]
    rcases store.value? store.root name.lexeme with ⟨none, noOther⟩ | ⟨value, second, bound, isOther, alike⟩
    · rw [none, noOther]
      exact .error rfl
    · rw [bound, isOther]
      exact .ok alike
  | some distance =>
    unfold Machine.read Store.getAt
    dsimp only [Option.map_some]
    -- The two walks end at twins, or both leave the chain.
    rcases both.beside.chain_getElem? store.root (keeps distance rfl) with
      ⟨none, noOther⟩ | ⟨found, twin, isHere, isThere, has⟩
    · rw [none, noOther]
      exact .error rfl
    · rw [isHere, isThere]
      dsimp only
      rcases store.value? has name.lexeme with ⟨none, noOther⟩ | ⟨value, second, bound, isOther, alike⟩
      · rw [none, noOther]
        exact .error rfl
      · rw [bound, isOther]
        exact .ok alike

theorem locate (both : machine.ThinnedAt twins kept other) (name : Token)
    {distance slim : Option Nat} (use : ThinnedUse kept distance slim) :
    ResultPairs (HasTwin twins) (· = ·) (machine.locate .lexical name distance)
      (other.locate .lexical name slim) := by
  have store := both.thinned.store
  obtain ⟨keeps, rfl⟩ := use
  cases distance with
  | none =>
    unfold Machine.locate
    dsimp only [searchFrame, globals, Option.map_none]
    rw [store.roots.1.holder?_root, store.roots.2.holder?_root, store.binds_eq store.root]
    cases machine.store.binds name.lexeme 0 with
    | false => exact .error rfl
    | true => exact .ok store.root
  | some distance =>
    unfold Machine.locate Store.locate
    dsimp only [Option.map_some]
    -- The two walks end at twins, or both leave the chain.
    rcases both.beside.chain_getElem? store.root (keeps distance rfl) with
      ⟨none, noOther⟩ | ⟨found, twin, isHere, isThere, has⟩
    · rw [none, noOther]
      exact .error rfl
    · rw [isHere, isThere]
      dsimp only
      rw [store.binds_eq has]
      cases machine.store.binds name.lexeme found with
      | false => exact .error rfl
      | true => exact .ok has

theorem grown {after after' : Machine} (both : machine.ThinnedAt twins kept other)
    (layout : twins <+: more) {opened otherOpened : Nat → Prop} (returns : machine.Returns opened after)
    (otherReturns : other.Returns otherOpened after') (thinned : after.Thinned more after') :
    after.ThinnedAt more kept after' where
  thinned := thinned
  depth := by rw [otherReturns.depth, both.depth, returns.depth]
  beside := by
    rw [returns.frame, otherReturns.frame]
    exact both.beside.mono layout returns.grows otherReturns.grows

theorem replace {found twin : Nat} (both : machine.ThinnedAt twins kept other)
    (has : HasTwin twins found twin) (name : String)
    (alike : ValueIn.Thinned twins machine.store other.store value second) :
    (machine.replace found name value).ThinnedAt twins kept (other.replace twin name second) := by
  have thinned := both.thinned
  have grows : machine.store.Grows (fun _ => True) (machine.store.put found name value) :=
    .put value (.inl trivial)
  have otherGrows : other.store.Grows (fun _ => True) (other.store.put twin name second) :=
    .put second (.inl trivial)
  exact both.grown (List.prefix_refl _) ⟨rfl, rfl, grows⟩ ⟨rfl, rfl, otherGrows⟩
    ⟨thinned.store.put has name alike, thinned.printed, thinned.closures, thinned.readings⟩

theorem define (both : machine.ThinnedAt twins kept other) (keeps : keptAt kept 0 = true)
    (name : String) (alike : ValueIn.Thinned twins machine.store other.store value second) :
    (machine.define name value).ThinnedAt twins kept (other.define name second) :=
  both.replace (both.here keeps) name alike

theorem enter {parent outer depth depth' : Nat} {around : List Bool}
    (thinned : machine.Thinned twins other)
    (beside : machine.store.Beside twins other.store around parent outer) (same : depth' = depth) :
    ThinnedAt (twins ++ [some other.store.next]) (true :: around)
      { machine.enter parent with depth := depth } { other.enter outer with depth := depth' } := by
  have grows : machine.store.Grows (fun _ => True) (machine.store.add (some parent)) := .add _ _
  have otherGrows : other.store.Grows (fun _ => True) (other.store.add (some outer)) := .add _ _
  have has : HasTwin (twins ++ [some other.store.next]) machine.store.next other.store.next := by
    unfold HasTwin
    rw [← thinned.store.length, List.getElem?_concat_length]
  constructor
  · exact ⟨thinned.store.add (some parent) (some outer), thinned.printed, thinned.closures,
      thinned.readings⟩
  · exact same
  · exact .inner rfl has (Store.frame?_add_next ..) rfl beside.lt_next.1
      (Store.frame?_add_next ..) rfl beside.lt_next.2
      (beside.mono (List.prefix_append _ _) grows otherGrows)

theorem skip (both : machine.ThinnedAt twins kept other) :
    (machine.enter machine.frame).ThinnedAt (twins ++ [none]) (false :: kept) other := by
  have thinned := both.thinned
  have grows : machine.store.Grows (fun _ => True) (machine.store.add (some machine.frame)) := .add _ _
  have otherGrows : other.store.Grows (fun _ => True) other.store := .refl _
  have single : Single (twins ++ [none]) machine.store.next := by
    unfold Single
    rw [← thinned.store.length, List.getElem?_concat_length]
  constructor
  · exact ⟨thinned.store.skip (some machine.frame), thinned.printed, thinned.closures,
      thinned.readings⟩
  · exact both.depth
  · exact .spare single (Store.frame?_add_next ..) rfl both.beside.lt_next.1
      (both.beside.mono (List.prefix_append _ _) grows otherGrows)

theorem defineAll {params : List Token} {arguments others : List Value}
    (both : machine.ThinnedAt twins kept other) (keeps : keptAt kept 0 = true)
    (alike : List.Forall₂ (ValueIn.Thinned twins machine.store other.store) arguments others) :
    (machine.defineAll params arguments).ThinnedAt twins kept (other.defineAll params others) := by
  induction params generalizing machine other arguments others with
  | nil => exact both
  | cons param params ih =>
    cases alike with
    | nil => exact both
    | @cons argument second arguments others first rest =>
      have grows := (machine.extended_define param.lexeme argument).grows
      have otherGrows := (other.extended_define param.lexeme second).grows
      exact ih (both.define keeps param.lexeme first)
        (List.Forall₂.imp (fun _ _ alike => alike.mono (List.prefix_refl _) grows otherGrows) rest)

theorem defineClosure {name : Token} {params : List Token} {body slim : List Stmt}
    (both : machine.ThinnedAt twins kept other) (keeps : keptAt kept 0 = true)
    (thinned : Stmt.AllThinned (true :: kept) body slim) :
    (machine.defineClosure name params body).ThinnedAt twins kept
      (other.defineClosure name params slim) := by
  have closure : ValueIn.Thinned twins machine.store other.store
      (.closure ⟨machine.closures, name, params, body, machine.frame⟩)
      (.closure ⟨machine.closures, name, params, slim, other.frame⟩) :=
    .closure both.beside thinned
  have defined := both.define keeps name.lexeme closure
  have kinds := defined.thinned
  unfold Machine.defineClosure
  rw [both.thinned.closures]
  exact ⟨⟨kinds.store, kinds.printed, rfl, kinds.readings⟩, defined.depth, defined.beside⟩

theorem enterCall {function : Closure} {body : List Stmt} {env : Nat} {around : List Bool}
    {arguments others : List Value} (both : machine.ThinnedAt twins kept other)
    (beside : machine.store.Beside twins other.store around function.env env)
    (alike : List.Forall₂ (ValueIn.Thinned twins machine.store other.store) arguments others) :
    (machine.enterCall function arguments).ThinnedAt (twins ++ [some other.store.next])
      (true :: around) (other.enterCall { function with body := body, env := env } others) := by
  have grows : machine.store.Grows (fun _ => True) (machine.store.add (some function.env)) :=
    .add _ _
  have otherGrows : other.store.Grows (fun _ => True) (other.store.add (some env)) := .add _ _
  have entered := enter both.thinned beside (congrArg (· + 1) both.depth)
  exact entered.defineAll rfl (List.Forall₂.imp
    (fun _ _ alike => alike.mono (List.prefix_append _ _) grows otherGrows) alike)

end Machine.ThinnedAt

/-! ### One machine on both sides -/

def Machine.ownTwins (machine : Machine) : Twins := (List.range machine.store.next).map some

theorem Machine.hasTwin_own {id twin : Nat} :
    HasTwin machine.ownTwins id twin ↔ id < machine.store.next ∧ twin = id := by
  simp only [HasTwin, ownTwins, List.getElem?_map, Option.map_eq_some_iff,
    List.getElem?_eq_some_iff, List.length_range, List.getElem_range, Option.some.injEq]
  constructor
  · rintro ⟨_, ⟨exist, rfl⟩, rfl⟩
    exact ⟨exist, rfl⟩
  · rintro ⟨exist, rfl⟩
    exact ⟨_, ⟨exist, rfl⟩, rfl⟩

theorem Store.Rooted.beside_self {store : Store Value} (rooted : store.Rooted)
    (own : ∀ {id : Nat}, id < store.next → HasTwin twins id id) {id : Nat} (exist : id < store.next) :
    store.Beside twins store [] id id := by
  obtain ⟨items, along⟩ := rooted.along id exist
  induction along with
  | root found isRoot => exact .root rfl found isRoot found isRoot
  | inner found isParent above _ outer ih =>
    exact .inner rfl (own exist) found isParent above found isParent above (ih outer.exists_frame)

theorem Frame.paired_self {good : Value → Value → Prop} (bindings : List (String × Value))
    (distinct : (bindings.map (·.1)).Nodup)
    (alike : ∀ {name : String} {value : Value}, lookup name bindings = some value → good value value) :
    Paired (· = ·) good bindings bindings := by
  induction bindings with
  | nil => exact .nil
  | cons first rest ih =>
    rw [List.map_cons, List.nodup_cons] at distinct
    have here : lookup first.1 (first :: rest) = some first.2 := by simp [lookup]
    refine .cons ⟨rfl, alike here⟩ (ih distinct.2 ?_)
    intro name value found
    have member : name ∈ rest.map (·.1) := mem_map_fst_iff.mpr (by rw [found]; rfl)
    have differs : first.1 ≠ name := fun same => distinct.1 (same ▸ member)
    exact alike (by rw [lookup, if_neg differs]; exact found)

theorem Machine.Rooted.thinnedAt_self (rooted : machine.Rooted) :
    machine.ThinnedAt machine.ownTwins [] machine := by
  have own : ∀ {id : Nat}, id < machine.store.next → HasTwin machine.ownTwins id id :=
    fun exist => hasTwin_own.mpr ⟨exist, rfl⟩
  refine ⟨⟨⟨by simp [ownTwins], ?_, ?_, own rooted.store.exist,
    rooted.store.beside_self own rooted.store.exist, ?_⟩, rfl, rfl, rfl⟩, rfl,
    rooted.store.beside_self own rooted.frame.lt_next⟩
  · intro id twin has
    obtain ⟨exist, rfl⟩ := hasTwin_own.mp has
    exact exist
  · intro id second twin has also
    exact (hasTwin_own.mp has).2.symm.trans (hasTwin_own.mp also).2
  · intro id twin has
    obtain ⟨exist, rfl⟩ := hasTwin_own.mp has
    refine Frame.paired_self _ (rooted.store.distinct twin) ?_
    intro name value found
    rw [← Store.value?_eq_lookup] at found
    cases value with
    | literal constant => exact .literal constant
    | native function => exact .native function
    | closure function =>
      exact .closure (rooted.store.beside_self own (rooted.values found).lt_next)
        (Stmt.allThinned_refl function.body (by simp))

end Lox
