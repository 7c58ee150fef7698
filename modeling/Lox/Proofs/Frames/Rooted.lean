import Mathlib.Data.List.Chain
import Mathlib.Data.List.Infix
import Mathlib.Data.List.Nodup
import Lox.Proofs.Frames.Chain

/-! The graph of frames, and what a change leaves of it.

Each frame but the root is inside an older one, so the way outwards from any frame ends
at the root. A change leaves every frame where it is, with its names in the order of
their first definition; there may be new names behind them, and new frames.
-/

set_option autoImplicit false

namespace Lox

variable {α : Type}

namespace Frame

theorem mem_map_fst_iff {name : String} {bindings : List (String × α)} :
    name ∈ bindings.map (·.1) ↔ (lookup name bindings).isSome = true := by
  induction bindings with
  | nil => simp [lookup]
  | cons first rest ih =>
    rw [List.map_cons, List.mem_cons, ih, lookup]
    by_cases same : first.1 = name
    · simp [same]
    · simp [same, Ne.symm same]

theorem map_fst_bind (name : String) (value : α) (bindings : List (String × α)) :
    (bind name value bindings).map (·.1) =
      if name ∈ bindings.map (·.1) then bindings.map (·.1) else bindings.map (·.1) ++ [name] := by
  induction bindings with
  | nil => rfl
  | cons first rest ih =>
    unfold bind
    by_cases same : first.1 = name
    · simp [same]
    · rw [if_neg same, List.map_cons, ih]
      split
      next known => rw [if_pos (by simp [List.mem_map.mp known]), List.map_cons]
      next fresh =>
        have unknown : name ∉ (first :: rest).map (·.1) := by
          rw [List.map_cons, List.mem_cons]
          exact fun member => member.elim (fun eq => same eq.symm) fresh
        rw [if_neg unknown]
        rfl

end Frame

namespace Store

variable {store grown last : Store α} {id other : Nat} {name found : String} {value : α}

def parent? (store : Store α) (id : Nat) : Option Nat := (store.frame? id).bind (·.parent)

def names (store : Store α) (id : Nat) : List String := (store.bindings id).map (·.1)

theorem mem_names_iff : name ∈ store.names id ↔ store.binds name id = true := by
  rw [names, Frame.mem_map_fst_iff, binds_eq, value?_eq_lookup]

theorem names_put (store : Store α) (id other : Nat) (name : String) (value : α) :
    (store.put id name value).names other =
      if id = other ∧ id < store.next ∧ name ∉ store.names other then store.names other ++ [name]
      else store.names other := by
  by_cases exist : id < store.next
  · unfold names
    rw [bindings_put exist]
    by_cases same : id = other
    · rw [if_pos same, Frame.map_fst_bind]
      split
      next known => rw [if_neg (fun all => all.2.2 known)]
      next fresh => rw [if_pos ⟨same, exist, fresh⟩]
    · rw [if_neg same, if_neg (fun all => same all.1)]
  · rw [put_of_le (Nat.le_of_not_lt exist), if_neg (fun all => exist all.2.1)]

theorem parent?_put (store : Store α) (id other : Nat) (name : String) (value : α) :
    (store.put id name value).parent? other = store.parent? other := by
  unfold parent?
  rw [frame?_put]
  split
  · cases store.frame? other <;> rfl
  · rfl

theorem parent?_add (store : Store α) (parent : Option Nat) (id : Nat) :
    (store.add parent).parent? id = if id = store.next then parent else store.parent? id := by
  unfold parent?
  rw [frame?_add_eq]
  split <;> rfl

theorem names_add (store : Store α) (parent : Option Nat) (id : Nat) :
    (store.add parent).names id = store.names id := by
  unfold names bindings
  rw [frame?_add_eq]
  by_cases last : id = store.next
  · have missing : store.frame? id = none := by
      rw [← Option.not_isSome_iff_eq_none, Option.isSome_iff_exists, frame?_eq_some_iff, last]
      exact Nat.lt_irrefl _
    rw [if_pos last, missing]
  · rw [if_neg last]

/-! ### What a change keeps -/

/-- Frames stay where they are, and their names stay in order. -/
structure Extends (store grown : Store α) : Prop where
  next_le : store.next ≤ grown.next
  parent? : ∀ id, id < store.next → grown.parent? id = store.parent? id
  names : ∀ id, store.names id <+: grown.names id

namespace Extends

theorem refl (store : Store α) : store.Extends store :=
  ⟨Nat.le_refl _, fun _ _ => rfl, fun _ => List.prefix_refl _⟩

theorem trans (first : store.Extends grown) (second : grown.Extends last) : store.Extends last where
  next_le := Nat.le_trans first.next_le second.next_le
  parent? id exist :=
    (second.parent? id (Nat.lt_of_lt_of_le exist first.next_le)).trans (first.parent? id exist)
  names id := (first.names id).trans (second.names id)

theorem put (store : Store α) (id : Nat) (name : String) (value : α) :
    store.Extends (store.put id name value) := by
  refine ⟨Nat.le_of_eq (next_put ..).symm, fun other _ => parent?_put .., fun other => ?_⟩
  rw [names_put]
  split
  · exact List.prefix_append _ _
  · exact List.prefix_refl _

theorem add (store : Store α) (parent : Option Nat) : store.Extends (store.add parent) := by
  refine ⟨by simp, fun id exist => ?_, fun id => ?_⟩
  · rw [parent?_add, if_neg (Nat.ne_of_lt exist)]
  · rw [names_add]

end Extends

def Gains (store grown : Store α) (id : Nat) (name : String) : Prop :=
  name ∈ grown.names id ∧ name ∉ store.names id

theorem gains_put {value : α} (gains : store.Gains (store.put id name value) other found) :
    other = id ∧ found = name := by
  obtain ⟨member, fresh⟩ := gains
  rw [names_put] at member
  split at member
  next new =>
    rcases List.mem_append.mp member with known | last
    · exact absurd known fresh
    · exact ⟨new.1.symm, List.mem_singleton.mp last⟩
  next => exact absurd member fresh

theorem not_gains_add {parent : Option Nat} : ¬ store.Gains (store.add parent) other found := by
  rintro ⟨member, fresh⟩
  rw [names_add] at member
  exact fresh member

theorem not_gains_self : ¬ store.Gains store other found := fun gains => gains.2 gains.1

/-- One binding has another value, and all else is as it was. -/
structure Replaces (store : Store α) (id : Nat) (name : String) (value : α) (after : Store α) :
    Prop where
  known : name ∈ store.names id
  value? : ∀ other found,
    after.value? other found = if id = other ∧ name = found then some value else store.value? other found
  names : ∀ other, after.names other = store.names other
  parent? : ∀ other, after.parent? other = store.parent? other
  next : after.next = store.next

theorem Replaces.not_gains (replaces : store.Replaces id name value grown) :
    ¬ store.Gains grown other found := by
  rintro ⟨member, fresh⟩
  rw [replaces.names] at member
  exact fresh member

theorem replaces_put (value : α) (known : store.binds name id = true) :
    store.Replaces id name value (store.put id name value) := by
  obtain ⟨old, read⟩ := binds_iff.mp known
  have exist := lt_next_of_value? read
  refine ⟨mem_names_iff.mpr known, fun other found => value?_put exist .., fun other => ?_,
    fun other => parent?_put .., next_put ..⟩
  rw [names_put, if_neg]
  rintro ⟨rfl, _, fresh⟩
  exact fresh (mem_names_iff.mpr known)

/-! ### The way outwards -/

/-- The chain of a frame begins with it, goes from each frame to the one around it,
which is older, and ends at the root. -/
structure LeadsOut (store : Store α) (id : Nat) : Prop where
  first : (store.chain id).head? = some id
  links : (store.chain id).IsChain fun inner outer =>
    store.parent? inner = some outer ∧ outer < inner
  last : (store.chain id).getLast? = some 0

/-- Each frame but the root is inside an older one, and no frame has a name twice. -/
structure Rooted (store : Store α) : Prop where
  exist : 0 < store.next
  root : store.parent? 0 = none
  inside : ∀ id, id ≠ 0 → id < store.next → ∃ parent, store.parent? id = some parent ∧ parent < id
  distinct : ∀ id, (store.names id).Nodup

theorem LeadsOut.lt_next (leads : store.LeadsOut id) : id < store.next := by
  rw [← frame?_eq_some_iff]
  cases read : store.frame? id with
  | some frame => exact ⟨frame, rfl⟩
  | none =>
    have empty : store.chain id = [] := by simp only [chain, chainWithin, read]
    have first := leads.first
    rw [empty] at first
    cases first

namespace Rooted

theorem parent_or_root (rooted : store.Rooted) (exist : id < store.next) :
    ∃ frame, store.frame? id = some frame ∧
      (id = 0 ∧ frame.parent = none ∨ ∃ parent, frame.parent = some parent ∧ parent < id) := by
  obtain ⟨frame, read⟩ := frame?_eq_some_iff.mpr exist
  refine ⟨frame, read, ?_⟩
  by_cases isRoot : id = 0
  · subst isRoot
    have root := rooted.root
    rw [parent?, read] at root
    exact .inl ⟨rfl, root⟩
  · obtain ⟨parent, isParent, older⟩ := rooted.inside id isRoot exist
    rw [parent?, read] at isParent
    exact .inr ⟨parent, isParent, older⟩

theorem along (rooted : store.Rooted) (id : Nat) :
    id < store.next → ∃ items : List Unit, store.Along (fun _ _ => True) id items := by
  -- The frame around this one has a smaller number.
  induction id using Nat.strongRecOn with
  | ind id ih =>
    intro exist
    obtain ⟨frame, read, ⟨rfl, isRoot⟩ | ⟨parent, isParent, older⟩⟩ := rooted.parent_or_root exist
    · exact ⟨[], .root read isRoot⟩
    · obtain ⟨items, outer⟩ := ih parent older (Nat.lt_trans older exist)
      exact ⟨() :: items, .inner read isParent older trivial outer⟩

theorem leadsOut (rooted : store.Rooted) (exist : id < store.next) : store.LeadsOut id := by
  obtain ⟨items, along⟩ := rooted.along id exist
  induction along with
  | root read isRoot =>
    have chain : store.chain 0 = [0] := by simp only [chain, chainWithin, read, isRoot]
    exact ⟨by rw [chain]; rfl, by rw [chain]; exact .singleton 0, by rw [chain]; rfl⟩
  | @inner id parent frame _ _ read isParent older _ outer ih =>
    have leads := ih (Nat.lt_trans older exist)
    have chain := outer.chain_cons read isParent older
    have link : store.parent? id = some parent := by rw [parent?, read]; exact isParent
    refine ⟨by rw [chain]; rfl, ?_, ?_⟩
    · rw [chain, List.isChain_cons]
      refine ⟨?_, leads.links⟩
      rw [leads.first]
      rintro _ ⟨⟩
      exact ⟨link, older⟩
    · rw [chain, List.getLast?_cons, leads.last]
      rfl

theorem put (rooted : store.Rooted) (id : Nat) (name : String) (value : α) :
    (store.put id name value).Rooted := by
  refine ⟨?_, ?_, ?_, fun other => ?_⟩
  · rw [next_put]
    exact rooted.exist
  · rw [parent?_put]
    exact rooted.root
  · intro other notRoot exist
    rw [next_put] at exist
    rw [parent?_put]
    exact rooted.inside other notRoot exist
  · rw [names_put]
    split
    next new =>
      rw [← List.concat_eq_append]
      exact List.Nodup.concat new.2.2 (rooted.distinct other)
    next => exact rooted.distinct other

theorem add {parent : Nat} (rooted : store.Rooted) (exist : parent < store.next) :
    (store.add (some parent)).Rooted := by
  refine ⟨by simp, ?_, ?_, fun id => ?_⟩
  · rw [parent?_add, if_neg (Nat.ne_of_lt rooted.exist)]
    exact rooted.root
  · intro id notRoot bound
    rw [next_add] at bound
    rw [parent?_add]
    split
    next isNew => exact ⟨parent, rfl, isNew ▸ exist⟩
    next isOld => exact rooted.inside id notRoot (by omega)
  · rw [names_add]
    exact rooted.distinct id

end Rooted

theorem LeadsOut.mono (leads : store.LeadsOut id) (extends_ : store.Extends grown)
    (rooted : grown.Rooted) : grown.LeadsOut id :=
  rooted.leadsOut (Nat.lt_of_lt_of_le leads.lt_next extends_.next_le)

end Store

end Lox
