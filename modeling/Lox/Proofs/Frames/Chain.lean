import Lox.Store

/-! Chains of frames, and how a store grows.

A chain lies along a list if each of its frames but the root has something to do
with the item at its place. Frames keep their parents and their names, so what lies
along a chain goes on doing so in every store that has grown from the first.
-/

set_option autoImplicit false

namespace Lox

/-- What is known of a frame is still there once more frames are. -/
theorem getElem?_of_prefix {α : Type} {items more : List α} {id : Nat} {item : α}
    (layout : items <+: more) (here : items[id]? = some item) : more[id]? = some item := by
  obtain ⟨tail, rfl⟩ := layout
  rw [List.getElem?_append_left (List.getElem?_eq_some_iff.mp here).1]
  exact here

namespace Frame

variable {α : Type}

theorem lookup_bind (name other : String) (value : α) (bindings : List (String × α)) :
    lookup other (bind name value bindings) =
      if name = other then some value else lookup other bindings := by
  induction bindings with
  | nil => simp [bind, lookup]
  | cons first rest ih =>
    by_cases here : first.1 = name <;> by_cases same : name = other <;>
      simp_all [bind, lookup]

theorem get?_put (frame : Frame α) (name other : String) (value : α) :
    (frame.put name value).get? other = if name = other then some value else frame.get? other :=
  lookup_bind name other value frame.bindings

end Frame

namespace Store

variable {α ι : Type} {store grown : Store α}

theorem frame?_eq_some_iff {id : Nat} : (∃ frame, store.frame? id = some frame) ↔ id < store.next := by
  rw [frame?, next]
  constructor
  · rintro ⟨frame, found⟩
    exact (Array.getElem?_eq_some_iff.mp found).1
  · intro bound
    exact ⟨store.frames[id], Array.getElem?_eq_getElem bound⟩

theorem frame?_put (store : Store α) (id other : Nat) (name : String) (value : α) :
    (store.put id name value).frame? other =
      if id = other then (store.frame? other).map (·.put name value) else store.frame? other :=
  Array.getElem?_modify

@[simp] theorem next_put (store : Store α) (id : Nat) (name : String) (value : α) :
    (store.put id name value).next = store.next :=
  Array.size_modify

@[simp] theorem next_add (store : Store α) (parent : Option Nat) :
    (store.add parent).next = store.next + 1 :=
  Array.size_push _

theorem frame?_add_next (store : Store α) (parent : Option Nat) :
    (store.add parent).frame? store.next = some ⟨[], parent⟩ :=
  Array.getElem?_push_size

theorem frame?_add {id : Nat} {frame : Frame α} (found : store.frame? id = some frame)
    (parent : Option Nat) : (store.add parent).frame? id = some frame := by
  have bound : id < store.next := frame?_eq_some_iff.mp ⟨frame, found⟩
  exact (Array.getElem?_push_lt bound).trans ((Array.getElem?_eq_getElem bound).symm.trans found)

theorem binds_eq (store : Store α) (name : String) (id : Nat) :
    store.binds name id = (store.value? id name).isSome := by
  unfold binds value?
  cases store.frame? id <;> rfl

theorem binds_iff {name : String} {id : Nat} :
    store.binds name id = true ↔ ∃ value, store.value? id name = some value := by
  rw [binds_eq, Option.isSome_iff_exists]

theorem lt_next_of_value? {name : String} {id : Nat} {value : α}
    (found : store.value? id name = some value) : id < store.next := by
  rw [← frame?_eq_some_iff]
  unfold value? at found
  cases read : store.frame? id with
  | none => simp [read] at found
  | some frame => exact ⟨frame, rfl⟩

theorem value?_put {id : Nat} (exist : id < store.next) (other : Nat) (name found : String)
    (value : α) :
    (store.put id name value).value? other found =
      if id = other ∧ name = found then some value else store.value? other found := by
  unfold value?
  rw [frame?_put]
  by_cases same : id = other
  · subst same
    obtain ⟨frame, read⟩ := frame?_eq_some_iff.mpr exist
    simp [read, Frame.get?_put]
  · simp [same]

theorem binds_put {id : Nat} (exist : id < store.next) (other : Nat) (name found : String)
    (value : α) :
    (store.put id name value).binds found other = true ↔
      (id = other ∧ name = found) ∨ store.binds found other = true := by
  rw [binds_eq, value?_put exist, binds_eq]
  split
  next same => simp [same]
  next apart => simp [apart]

theorem put_of_le {id : Nat} (outside : store.next ≤ id) (name : String) (value : α) :
    store.put id name value = store := by
  unfold put
  congr 1
  apply Array.ext_getElem?
  intro other
  rw [Array.getElem?_modify]
  split
  next same =>
    have missing : store.frames[other]? = none :=
      Array.getElem?_eq_none (same ▸ outside)
    rw [missing]
    rfl
  next => rfl

theorem frame?_add_eq (store : Store α) (parent : Option Nat) (id : Nat) :
    (store.add parent).frame? id = if id = store.next then some ⟨[], parent⟩ else store.frame? id :=
  Array.getElem?_push

theorem value?_add (store : Store α) (parent : Option Nat) (id : Nat) (name : String) :
    (store.add parent).value? id name = store.value? id name := by
  unfold value?
  cases read : store.frame? id with
  | some frame => rw [frame?_add read]
  | none =>
    by_cases last : id = store.next
    · subst last
      rw [frame?_add_next]
      rfl
    -- Any other frame that is not there is not there afterwards either.
    · have beyond : ¬ id < store.next := by
        rw [← frame?_eq_some_iff, read]
        simp
      have outside : (store.add parent).frame? id = none := by
        rw [← Option.not_isSome_iff_eq_none, Option.isSome_iff_exists, frame?_eq_some_iff, next_add]
        omega
      rw [outside]

theorem value?_eq_lookup (store : Store α) (id : Nat) (name : String) :
    store.value? id name = Frame.lookup name (store.bindings id) := by
  unfold value? bindings
  cases store.frame? id <;> rfl

theorem bindings_put {id : Nat} (exist : id < store.next) (other : Nat) (name : String) (value : α) :
    (store.put id name value).bindings other =
      if id = other then Frame.bind name value (store.bindings other) else store.bindings other := by
  unfold bindings
  rw [frame?_put]
  by_cases same : id = other
  · subst same
    obtain ⟨frame, read⟩ := frame?_eq_some_iff.mpr exist
    simp [read, Frame.put]
  · simp [same]

theorem bindings_add {id : Nat} (exist : id < store.next) (parent : Option Nat) :
    (store.add parent).bindings id = store.bindings id := by
  obtain ⟨frame, read⟩ := frame?_eq_some_iff.mpr exist
  unfold bindings
  rw [frame?_add read, read]

theorem chainWithin_eq_of_parents {β : Type} {other : Store β}
    (same : ∀ id, (other.frame? id).map Frame.parent = (store.frame? id).map Frame.parent) (steps : Nat) :
    ∀ id, other.chainWithin steps id = store.chainWithin steps id := by
  induction steps with
  | zero => exact fun _ => rfl
  | succ steps ih =>
    intro id
    have parents := same id
    rw [chainWithin, chainWithin]
    cases found : store.frame? id with
    | none =>
      rw [found, Option.map_none, Option.map_eq_none_iff] at parents
      rw [parents]
    | some frame =>
      rw [found, Option.map_some] at parents
      obtain ⟨second, isSecond, outer⟩ := Option.map_eq_some_iff.mp parents
      rw [isSecond]
      dsimp only
      rw [outer]
      cases frame.parent with
      | none => rfl
      | some parent => simp only [ih]

theorem chain_eq_of_parents {β : Type} {other : Store β}
    (same : ∀ id, (other.frame? id).map Frame.parent = (store.frame? id).map Frame.parent) (id : Nat) :
    other.chain id = store.chain id :=
  chainWithin_eq_of_parents same (id + 1) id

/-- Frames keep their parents and their names, and only opened ones get new names. -/
structure Grows (opened : Nat → Prop) (store grown : Store α) : Prop where
  parent : ∀ {id : Nat} {frame : Frame α}, store.frame? id = some frame →
    ∃ other, grown.frame? id = some other ∧ other.parent = frame.parent
  keeps : ∀ {id : Nat} {name : String}, store.binds name id = true → grown.binds name id = true
  adds : ∀ {id : Nat} {name : String}, id < store.next → ¬ opened id →
    grown.binds name id = true → store.binds name id = true

namespace Grows

variable {opened others : Nat → Prop}

theorem refl (store : Store α) : Grows opened store store :=
  ⟨fun found => ⟨_, found, rfl⟩, id, fun _ _ => id⟩

theorem next_le (grows : Grows opened store grown) : store.next ≤ grown.next := by
  rcases Nat.eq_zero_or_pos store.next with none | some
  · omega
  · obtain ⟨frame, found⟩ := frame?_eq_some_iff.mpr (show store.next - 1 < store.next by omega)
    obtain ⟨other, found, _⟩ := grows.parent found
    have bound := frame?_eq_some_iff.mp ⟨other, found⟩
    omega

theorem trans {last : Store α} (grows : Grows opened store grown) (more : Grows others grown last)
    (within : ∀ id, id < store.next → others id → opened id) : Grows opened store last where
  parent found := by
    obtain ⟨frame, found, same⟩ := grows.parent found
    obtain ⟨frame', found', same'⟩ := more.parent found
    exact ⟨frame', found', same'.trans same⟩
  keeps binds := more.keeps (grows.keeps binds)
  adds bound closed binds :=
    grows.adds bound closed
      (more.adds (Nat.lt_of_lt_of_le bound grows.next_le) (fun open_ => closed (within _ bound open_))
        binds)

theorem mono (grows : Grows others store grown)
    (within : ∀ id, id < store.next → others id → opened id) : Grows opened store grown :=
  (refl store).trans grows within

theorem add (store : Store α) (parent : Option Nat) : Grows opened store (store.add parent) where
  parent found := ⟨_, frame?_add found parent, rfl⟩
  keeps binds := by rwa [binds_eq, value?_add, ← binds_eq]
  adds _ _ binds := by rwa [binds_eq, value?_add, ← binds_eq] at binds

theorem put {id : Nat} {name : String} (value : α) (known : opened id ∨ store.binds name id = true) :
    Grows opened store (store.put id name value) := by
  by_cases exist : id < store.next
  · constructor
    · intro other frame found
      rw [frame?_put, found]
      by_cases same : id = other <;> simp [same, Frame.put]
    · intro other found binds
      exact (binds_put exist ..).mpr (.inr binds)
    · intro other found _ closed binds
      rcases (binds_put exist ..).mp binds with ⟨rfl, rfl⟩ | binds
      · exact known.resolve_left closed
      · exact binds
  · rw [put_of_le (Nat.le_of_not_lt exist)]
    exact refl store

end Grows

/-- A chain of frames with an item for each frame but the root. -/
inductive Along (store : Store α) (holds : Nat → ι → Prop) : Nat → List ι → Prop where
  | root {frame : Frame α} :
      store.frame? 0 = some frame → frame.parent = none → Along store holds 0 []
  | inner {id parent : Nat} {frame : Frame α} {item : ι} {items : List ι} :
      store.frame? id = some frame → frame.parent = some parent → parent < id → holds id item →
      Along store holds parent items → Along store holds id (item :: items)

namespace Along

variable {holds : Nat → ι → Prop} {id : Nat} {items : List ι}

theorem exists_frame (along : Along store holds id items) : id < store.next := by
  rw [← frame?_eq_some_iff]
  cases along with
  | root found _ => exact ⟨_, found⟩
  | inner found _ _ _ _ => exact ⟨_, found⟩

theorem mono {opened : Nat → Prop} {wanted : Nat → ι → Prop}
    (along : Along store holds id items) (grows : Grows opened store grown)
    (weaker : ∀ {id : Nat} {item : ι}, holds id item → wanted id item) :
    Along grown wanted id items := by
  induction along with
  | root found isRoot =>
    obtain ⟨frame, found, same⟩ := grows.parent found
    exact .root found (same.trans isRoot)
  | inner found isParent above here _ ih =>
    obtain ⟨frame, found, same⟩ := grows.parent found
    exact .inner found (same.trans isParent) above (weaker here) ih

theorem chainWithin_eq (along : Along store holds id items) :
    ∀ {steps : Nat}, id < steps → store.chainWithin steps id = store.chain id := by
  -- A parent has a smaller number, so fewer steps are enough for the rest of the chain.
  induction along with
  | root found isRoot =>
    intro steps enough
    obtain ⟨steps, rfl⟩ : ∃ less, steps = less + 1 := ⟨steps - 1, by omega⟩
    simp only [chain, chainWithin, found, isRoot]
  | @inner id parent frame item items found isParent above _ _ ih =>
    intro steps enough
    obtain ⟨steps, rfl⟩ : ∃ less, steps = less + 1 := ⟨steps - 1, by omega⟩
    simp only [chain, chainWithin, found, isParent]
    rw [ih (show parent < steps by omega), ih above]

theorem chain_root (along : Along store holds id []) : store.chain id = [0] := by
  cases along with
  | root found isRoot => simp only [chain, chainWithin, found, isRoot]

theorem change {item other : ι} (along : Along store holds id (item :: items))
    (here : holds id other) : Along store holds id (other :: items) := by
  cases along with
  | inner found isParent above _ outer => exact .inner found isParent above here outer

theorem chain_cons {parent : Nat} {frame : Frame α} (outer : Along store holds parent items)
    (found : store.frame? id = some frame) (isParent : frame.parent = some parent)
    (above : parent < id) : store.chain id = id :: store.chain parent := by
  simp only [chain, chainWithin, found, isParent]
  rw [outer.chainWithin_eq above]
  rfl

theorem chain_inner {item : ι} (along : Along store holds id (item :: items)) :
    ∃ parent, store.chain id = id :: store.chain parent ∧ id ≠ 0 ∧ holds id item ∧
      Along store holds parent items := by
  cases along with
  | @inner _ parent _ _ _ found isParent above here outer =>
    exact ⟨parent, outer.chain_cons found isParent above, by omega, here, outer⟩

theorem eq_zero (along : Along store holds id []) : id = 0 := by
  cases along
  rfl

theorem holder?_root (along : Along store holds id []) (name : String) :
    store.holder? id name = if store.binds name 0 then some 0 else none := by
  unfold holder?
  rw [along.chain_root]
  cases bound : store.binds name 0 <;> simp [bound]

theorem get?_root (along : Along store holds id []) (name : String) :
    store.get? id name = store.value? 0 name := by
  unfold get?
  rw [along.holder?_root, binds_eq]
  cases read : store.value? 0 name with
  | none => rfl
  | some value => simpa using read

theorem chain_zero (along : Along store holds id items) : (store.chain id)[0]? = some id := by
  cases along with
  | root found isRoot => rw [chain_root (Along.root found isRoot : Along store holds 0 [])]; rfl
  | inner found isParent above here outer =>
    obtain ⟨_, split, _⟩ := (Along.inner found isParent above here outer).chain_inner
    rw [split]
    rfl

/-- The frame at a distance belongs to the item at that place. -/
theorem chain_getElem? (along : Along store holds id items) {distance : Nat} {item : ι}
    (here : items[distance]? = some item) :
    ∃ found, (store.chain id)[distance]? = some found ∧ found ≠ 0 ∧ holds found item := by
  induction items generalizing id distance with
  | nil => simp at here
  | cons first others ih =>
    obtain ⟨parent, split, notRoot, holdsHere, outer⟩ := along.chain_inner
    cases distance with
    | zero =>
      rw [List.getElem?_cons_zero, Option.some.injEq] at here
      subst here
      exact ⟨id, by rw [split]; rfl, notRoot, holdsHere⟩
    | succ distance =>
      rw [List.getElem?_cons_succ] at here
      obtain ⟨found, at_, rest⟩ := ih outer here
      exact ⟨found, by rw [split, List.getElem?_cons_succ]; exact at_, rest⟩

/-- A frame on the chain belongs to the item at its distance, or is the root behind them. -/
theorem item_or_root (along : Along store holds id items) {distance found : Nat}
    (here : (store.chain id)[distance]? = some found) :
    (∃ item, items[distance]? = some item ∧ holds found item) ∨
      (items[distance]? = none ∧ found = 0) := by
  induction items generalizing id distance with
  | nil =>
    rw [along.chain_root] at here
    cases distance with
    | zero => exact .inr ⟨rfl, by simpa using here.symm⟩
    | succ distance => simp at here
  | cons first others ih =>
    obtain ⟨parent, split, _, holdsHere, outer⟩ := along.chain_inner
    rw [split] at here
    cases distance with
    | zero =>
      rw [List.getElem?_cons_zero, Option.some.injEq] at here
      subst here
      exact .inl ⟨first, rfl, holdsHere⟩
    | succ distance =>
      rw [List.getElem?_cons_succ] at here ⊢
      exact ih outer here

end Along

end Store

end Lox
