import Lox.Proofs.Frames.Rooted

/-! Forests of frames.

Requests build a forest: a frame is made inside an older one or inside none, and many may
share the frame around them. Asking for a name, assigning it and walking a distance agree on
the frame that has it, and a name that is bound anew is seen from just those frames whose
nearest holder of it was changed.
-/

set_option autoImplicit false

namespace Lox.Store

variable {α : Type} {store after : Store α} {id other parent distance holder : Nat}
  {name found : String} {value : α}

/-! ### Chains -/

def Layered (store : Store α) : Prop :=
  ∀ id parent, store.parent? id = some parent → parent < id

namespace Layered

/-- A walk needs no more steps than the number of its first frame allows. -/
theorem chainWithin_eq (layered : store.Layered) (id : Nat) :
    ∀ {steps : Nat}, id < steps → store.chainWithin steps id = store.chain id := by
  induction id using Nat.strongRecOn with
  | ind id ih =>
    intro steps enough
    obtain ⟨steps, rfl⟩ : ∃ fewer, steps = fewer + 1 := ⟨steps - 1, by omega⟩
    rw [chain, chainWithin, chainWithin]
    cases read : store.frame? id with
    | none => rfl
    | some frame =>
      dsimp only
      cases isParent : frame.parent with
      | none => rfl
      | some parent =>
        have older : parent < id := layered id parent (by rw [parent?, read]; exact isParent)
        dsimp only
        rw [ih parent older (show parent < steps by omega), ih parent older older]

/-- A chain begins with its own frame and goes on with that of the frame around it. -/
theorem chain_eq (layered : store.Layered) (exist : id < store.next) :
    store.chain id = id :: (store.parent? id).elim [] store.chain := by
  obtain ⟨frame, read⟩ := frame?_eq_some_iff.mpr exist
  have around : store.parent? id = frame.parent := by rw [parent?, read]; rfl
  rw [chain, chainWithin, read, around]
  dsimp only
  cases isParent : frame.parent with
  | none => rfl
  | some parent =>
    have older : parent < id := layered id parent (around.trans isParent)
    dsimp only [Option.elim]
    rw [layered.chainWithin_eq parent older]

end Layered

theorem chain_of_le (outside : store.next ≤ id) : store.chain id = [] := by
  have missing : store.frame? id = none := by
    rw [← Option.not_isSome_iff_eq_none, Option.isSome_iff_exists, frame?_eq_some_iff]
    omega
  rw [chain, chainWithin, missing]

theorem Layered.chain_pairwise (layered : store.Layered) (id : Nat) :
    (store.chain id).Pairwise (· > ·) ∧ ∀ outer ∈ store.chain id, outer ≤ id := by
  induction id using Nat.strongRecOn with
  | ind id ih =>
    rcases Nat.lt_or_ge id store.next with exist | outside
    · rw [layered.chain_eq exist]
      cases isParent : store.parent? id with
      | none => simp
      | some parent =>
        have older := layered id parent isParent
        obtain ⟨sorted, bounded⟩ := ih parent older
        have below : ∀ outer ∈ store.chain parent, outer < id :=
          fun outer member => Nat.lt_of_le_of_lt (bounded outer member) older
        refine ⟨List.pairwise_cons.mpr ⟨below, sorted⟩, ?_⟩
        exact List.forall_mem_cons.mpr ⟨Nat.le_refl id, fun outer member => (below outer member).le⟩
    · rw [chain_of_le outside]
      exact ⟨.nil, nofun⟩

theorem chain_put (store : Store α) (id other : Nat) (name : String) (value : α) :
    (store.put id name value).chain other = store.chain other := by
  apply chain_eq_of_parents
  intro frame
  rw [frame?_put]
  split
  · cases store.frame? frame <;> rfl
  · rfl

/-! ### Walks to a distance -/

theorem ancestor_eq_frame_iff :
    store.ancestor id distance = .frame holder ↔ (store.chain id)[distance]? = some holder := by
  unfold ancestor
  dsimp only
  split
  next here => rw [here, Ancestor.frame.injEq, Option.some.injEq]
  next missing =>
    rw [missing]
    split <;> simp

theorem Layered.ancestor_succ (layered : store.Layered) (exist : id < store.next) (distance : Nat) :
    store.ancestor id (distance + 1) =
      match store.parent? id with
      | some parent => store.ancestor parent distance
      | none => if distance = 0 then .outside else .beyond := by
  unfold ancestor
  rw [layered.chain_eq exist]
  cases store.parent? id with
  | none => simp
  | some parent => simp

/-- The frame at this distance is the nearest that has the name. -/
structure Nearest (store : Store α) (id : Nat) (name : String) (distance holder : Nat) : Prop where
  here : store.ancestor id distance = .frame holder
  binds : store.binds name holder = true
  closer : ∀ shorter < distance, ∀ frame, store.ancestor id shorter = .frame frame →
    store.binds name frame = false

theorem exists_nearest (finds : store.holder? id name = some holder) :
    ∃ distance, store.Nearest id name distance holder := by
  obtain ⟨binds, distance, bound, here, closer⟩ := List.find?_eq_some_iff_getElem.mp finds
  refine ⟨distance, ancestor_eq_frame_iff.mpr ?_, binds, fun shorter less frame there => ?_⟩
  · rw [List.getElem?_eq_getElem bound, here]
  · obtain ⟨within, isFrame⟩ := List.getElem?_eq_some_iff.mp (ancestor_eq_frame_iff.mp there)
    have other := closer shorter less
    rw [isFrame] at other
    simpa using other

/-! ### Reading and assigning -/

theorem holder_cases (store : Store α) (id : Nat) (name : String) :
    store.holder? id name = none ∧ store.get? id name = none ∨
      ∃ holder value, store.holder? id name = some holder ∧ store.value? holder name = some value ∧
        store.get? id name = some value := by
  cases finds : store.holder? id name with
  | none => exact .inl ⟨rfl, by rw [get?, finds]; rfl⟩
  | some holder =>
    obtain ⟨value, read⟩ := binds_iff.mp (List.find?_some finds)
    exact .inr ⟨holder, value, rfl, read, by rw [get?, finds]; exact read⟩

theorem contains_iff_get? :
    store.contains id name = true ↔ ∃ value, store.get? id name = some value := by
  rw [contains]
  rcases store.holder_cases id name with ⟨lacks, reads⟩ | ⟨holder, value, holds, -, reads⟩
  · simp [lacks, reads]
  · simp [holds, reads]

theorem contains_iff_assign? (value : α) :
    store.contains id name = true ↔ ∃ after, store.assign? id name value = some after := by
  rw [contains, assign?]
  cases store.holder? id name <;> simp

theorem Nearest.getAt_eq (nearest : store.Nearest id name distance holder)
    (read : store.value? holder name = some value) : store.getAt id distance name = .ok value := by
  rw [getAt, ancestor_eq_frame_iff.mp nearest.here]
  dsimp only
  rw [read]

theorem holder?_put_of_binds (binds : store.binds name id = true) (value : α) (other : Nat)
    (found : String) : (store.put id name value).holder? other found = store.holder? other found := by
  have exist := lt_next_of_value? (binds_iff.mp binds).choose_spec
  rw [holder?, holder?, chain_put]
  congr 1
  funext frame
  rw [Bool.eq_iff_iff, binds_put exist]
  constructor
  · rintro (⟨rfl, rfl⟩ | bound)
    · exact binds
    · exact bound
  · exact .inr

/-- An assignment is seen from the frames whose nearest holder is the one that it changed. -/
theorem get?_of_assign? (assigned : store.assign? id name value = some after) (other : Nat)
    (found : String) :
    after.get? other found =
      if found = name ∧ store.holder? other name = store.holder? id name then some value
      else store.get? other found := by
  obtain ⟨holder, holds, rfl⟩ := Option.map_eq_some_iff.mp assigned
  have binds : store.binds name holder = true := List.find?_some holds
  have exist := lt_next_of_value? (binds_iff.mp binds).choose_spec
  rw [holds, get?, get?, holder?_put_of_binds binds]
  cases finds : store.holder? other found with
  | none =>
    rw [if_neg]
    · rfl
    · rintro ⟨rfl, same⟩
      rw [finds] at same
      cases same
  | some nearest =>
    rw [Option.bind_some, Option.bind_some, value?_put exist]
    by_cases same : found = name
    · subst same
      simp only [finds, true_and, Option.some.injEq, and_true, eq_comm]
    · rw [if_neg (fun both => same both.2.symm), if_neg (fun both => same both.1)]

/-! ### Reading and assigning at a distance -/

theorem getAt_eq_missing_iff :
    store.getAt id distance name = .error (.missing name) ↔
      ∃ holder, store.ancestor id distance = .frame holder ∧ store.binds name holder = false := by
  simp only [getAt, ancestor_eq_frame_iff, binds_eq]
  cases (store.chain id)[distance]? with
  | none => simp
  | some holder => cases read : store.value? holder name <;> simp [read]

theorem getAt_eq_noFrame_iff :
    store.getAt id distance name = .error .noFrame ↔
      ∀ holder, store.ancestor id distance ≠ .frame holder := by
  simp only [getAt, ne_eq, ancestor_eq_frame_iff]
  cases (store.chain id)[distance]? with
  | none => simp
  | some holder => cases read : store.value? holder name <;> simp [read]

/-- At a distance a name is assigned where it is read, and fails as it fails to be read. -/
theorem assignAt_cases (store : Store α) (id distance : Nat) (name : String) (value : α) :
    (∃ fault, store.getAt id distance name = .error fault ∧
      store.assignAt id distance name value = .error fault) ∨
      ∃ holder old, store.ancestor id distance = .frame holder ∧ store.binds name holder = true ∧
        store.getAt id distance name = .ok old ∧
        store.assignAt id distance name value = .ok (store.put holder name value) := by
  simp only [assignAt, locate, getAt, ancestor_eq_frame_iff, binds_eq]
  cases (store.chain id)[distance]? with
  | none => exact .inl ⟨.noFrame, rfl, rfl⟩
  | some holder =>
    cases read : store.value? holder name with
    | none => exact .inl ⟨.missing name, by simp [read], by simp [read, Except.map]⟩
    | some old =>
      exact .inr ⟨holder, old, rfl, by simp [read], by simp [read], by simp [read, Except.map]⟩

theorem assignAt_eq_ok_iff (value : α) :
    (∃ after, store.assignAt id distance name value = .ok after) ↔
      ∃ old, store.getAt id distance name = .ok old := by
  rcases store.assignAt_cases id distance name value with
    ⟨fault, reads, assigns⟩ | ⟨holder, old, -, -, reads, assigns⟩
  · simp [reads, assigns]
  · simp [reads, assigns]

theorem assignAt_eq_error_iff (value : α) (fault : Fault) :
    store.assignAt id distance name value = .error fault ↔
      store.getAt id distance name = .error fault := by
  rcases store.assignAt_cases id distance name value with
    ⟨other, reads, assigns⟩ | ⟨holder, old, -, -, reads, assigns⟩
  · rw [reads, assigns, Except.error.injEq, Except.error.injEq]
  · simp [reads, assigns]

theorem replaces_of_assignAt (assigned : store.assignAt id distance name value = .ok after) :
    ∃ holder, store.ancestor id distance = .frame holder ∧ store.Replaces holder name value after := by
  rcases store.assignAt_cases id distance name value with
    ⟨fault, -, assigns⟩ | ⟨holder, old, here, binds, -, assigns⟩
  · rw [assigns] at assigned
    cases assigned
  · rw [assigns, Except.ok.injEq] at assigned
    subst assigned
    exact ⟨holder, here, replaces_put value binds⟩

/-! ### Defining -/

theorem frame?_put_of_ne (store : Store α) (apart : other ≠ id) (name : String) (value : α) :
    (store.put id name value).frame? other = store.frame? other := by
  rw [frame?_put, if_neg (Ne.symm apart)]

theorem Layered.get?_put_outside (layered : store.Layered) (holds : store.holder? other name = some holder)
    (outside : store.ancestor holder (distance + 1) = .frame id) (value : α) :
    (store.put id name value).get? other name = store.get? other name := by
  -- The frame of the definition is older than the holder, and those searched before are younger.
  have older : id < holder := by
    rcases Nat.lt_or_ge holder store.next with exist | missing
    · have sorted := (layered.chain_pairwise holder).1
      have there := ancestor_eq_frame_iff.mp outside
      rw [layered.chain_eq exist] at sorted there
      exact (List.pairwise_cons.mp sorted).1 id (List.mem_of_getElem? there)
    · have there := ancestor_eq_frame_iff.mp outside
      rw [chain_of_le missing] at there
      cases there
  obtain ⟨binds, before, behind, split, none⟩ := List.find?_eq_some_iff_append.mp holds
  have younger : ∀ frame ∈ before, holder < frame := by
    have sorted := (layered.chain_pairwise other).1
    rw [split, List.pairwise_append] at sorted
    exact fun frame member => sorted.2.2 frame member holder List.mem_cons_self
  have same : ∀ frame, frame ≠ id → (store.put id name value).value? frame name = store.value? frame name := by
    intro frame apart
    rw [value?, value?, frame?_put_of_ne store apart]
  have still : (store.put id name value).holder? other name = some holder := by
    rw [holder?, chain_put, List.find?_eq_some_iff_append]
    refine ⟨by rw [binds_eq, same holder (by omega), ← binds_eq]; exact binds, before, behind, split, ?_⟩
    intro frame member
    have after := younger frame member
    rw [binds_eq, same frame (by omega), ← binds_eq]
    exact none frame member
  rw [get?, get?, still, holds, Option.bind_some, Option.bind_some, same holder (by omega)]

/-! ### Forests -/

/-- What is asked of a store. -/
inductive Request (α : Type) where
  | make (parent : Option Nat)
  | define (id : Nat) (name : String) (value : α)
  | assign (id : Nat) (name : String) (value : α)
  | assignAt (id distance : Nat) (name : String) (value : α)

def Request.frame? : Request α → Option Nat
  | .make parent => parent
  | .define id .. | .assign id .. | .assignAt id .. => some id

def answer? (store : Store α) : Request α → Option (Store α)
  | .make parent => some (store.add parent)
  | .define id name value => some (store.put id name value)
  | .assign id name value => store.assign? id name value
  | .assignAt id distance name value => (store.assignAt id distance name value).toOption

/-- The store that a request leaves behind, be it that it failed. -/
def ask (store : Store α) (request : Request α) : Store α :=
  (store.answer? request).getD store

/-- What requests about existing frames build. -/
inductive Forest : Store α → Prop where
  | empty : Forest empty
  | ask {store : Store α} {request : Request α} :
      Forest store → (∀ id ∈ request.frame?, id < store.next) → Forest (store.ask request)

theorem ask_cases (store : Store α) (request : Request α) :
    store.answer? request = none ∧ store.ask request = store ∨
      (∃ parent, request = .make parent ∧ store.ask request = store.add parent) ∨
      ∃ id name value, store.ask request = store.put id name value := by
  unfold ask
  cases request with
  | make parent => exact .inr (.inl ⟨parent, rfl, rfl⟩)
  | define id name value => exact .inr (.inr ⟨id, name, value, rfl⟩)
  | assign id name value =>
    rw [answer?]
    cases assigned : store.assign? id name value with
    | none => exact .inl ⟨rfl, rfl⟩
    | some after =>
      obtain ⟨holder, -, rfl⟩ := Option.map_eq_some_iff.mp assigned
      exact .inr (.inr ⟨holder, name, value, rfl⟩)
  | assignAt id distance name value =>
    rw [answer?]
    rcases store.assignAt_cases id distance name value with
      ⟨fault, -, assigns⟩ | ⟨holder, old, -, -, -, assigns⟩
    · rw [assigns]
      exact .inl ⟨rfl, rfl⟩
    · rw [assigns]
      exact .inr (.inr ⟨holder, name, value, rfl⟩)

theorem Forest.layered (forest : store.Forest) : store.Layered := by
  induction forest with
  | empty => exact nofun
  | @ask store request _ exist ih =>
    intro id parent around
    rcases store.ask_cases request with ⟨-, same⟩ | ⟨outer, rfl, same⟩ | ⟨target, name, value, same⟩
    · rw [same] at around
      exact ih id parent around
    · rw [same, parent?_add] at around
      split at around
      next isNew =>
        rw [isNew]
        exact exist parent around
      next => exact ih id parent around
    · rw [same, parent?_put] at around
      exact ih id parent around

/-- In a forest a distance counts steps to the frame around. A name is known just where it
can be read and where it can be assigned; what is read is what stands at the least distance
whose frame has the name. An assignment is seen from the frames whose nearest holder it
changed, under that name alone. At a distance a name is assigned where it is read, and
otherwise both fail alike: the name is missing from the frame, or there is no frame. A
definition changes one frame and is not seen past a nearer holder. What fails changes nothing. -/
theorem Forest.laws (forest : store.Forest) (id : Nat) (name : String) (value : α) :
    (id < store.next → store.ancestor id 0 = .frame id ∧ ∀ distance,
      store.ancestor id (distance + 1) =
        match store.parent? id with
        | some parent => store.ancestor parent distance
        | none => if distance = 0 then .outside else .beyond) ∧
    (store.contains id name = true ↔ ∃ read, store.get? id name = some read) ∧
    (store.contains id name = true ↔ ∃ after, store.assign? id name value = some after) ∧
    (store.contains id name = true → ∃ distance holder read,
      store.Nearest id name distance holder ∧ store.holder? id name = some holder ∧
        store.getAt id distance name = .ok read ∧ store.get? id name = some read) ∧
    (∀ after, store.assign? id name value = some after → ∀ other found,
      after.get? other found =
        if found = name ∧ store.holder? other name = store.holder? id name then some value
        else store.get? other found) ∧
    (∀ distance,
      ((∃ after, store.assignAt id distance name value = .ok after) ↔
        ∃ old, store.getAt id distance name = .ok old) ∧
      (∀ fault, store.assignAt id distance name value = .error fault ↔
        store.getAt id distance name = .error fault) ∧
      (store.getAt id distance name = .error (.missing name) ↔
        ∃ holder, store.ancestor id distance = .frame holder ∧ store.binds name holder = false) ∧
      (store.getAt id distance name = .error .noFrame ↔
        ∀ holder, store.ancestor id distance ≠ .frame holder) ∧
      ∀ after, store.assignAt id distance name value = .ok after → ∃ holder,
        store.ancestor id distance = .frame holder ∧ store.Replaces holder name value after) ∧
    (∀ other, other ≠ id → (store.put id name value).frame? other = store.frame? other) ∧
    (id < store.next → (store.put id name value).parent? id = store.parent? id ∧ ∀ found,
      (store.put id name value).value? id found =
        if name = found then some value else store.value? id found) ∧
    (∀ other holder distance, store.holder? other name = some holder →
      store.ancestor holder (distance + 1) = .frame id →
      (store.put id name value).get? other name = store.get? other name) ∧
    ∀ request, store.answer? request = none → store.ask request = store := by
  refine ⟨fun exist => ⟨?_, forest.layered.ancestor_succ exist⟩, contains_iff_get?,
    contains_iff_assign? value, ?_, fun after => get?_of_assign?, fun distance => ?_,
    fun other apart => frame?_put_of_ne store apart name value,
    fun exist => ⟨parent?_put .., fun found => by simpa using value?_put exist id name found value⟩,
    ?_, ?_⟩
  -- No step at all leads to the frame itself, which is the head of its own chain.
  · rw [ancestor_eq_frame_iff, forest.layered.chain_eq exist]
    rfl
  · intro known
    -- What `contains` tells comes from the same search as what is read.
    rcases store.holder_cases id name with ⟨lacks, -⟩ | ⟨holder, read, holds, stands, reads⟩
    · rw [contains, lacks] at known
      cases known
    · obtain ⟨distance, nearest⟩ := exists_nearest holds
      exact ⟨distance, holder, read, nearest, holds, nearest.getAt_eq stands, reads⟩
  · exact ⟨assignAt_eq_ok_iff value, assignAt_eq_error_iff value, getAt_eq_missing_iff,
      getAt_eq_noFrame_iff, fun after => replaces_of_assignAt⟩
  · exact fun other holder distance holds outside =>
      forest.layered.get?_put_outside holds outside value
  · intro request fails
    rw [Store.ask, fails]
    rfl

/-- Two frames inside the root, one of which has the root's name too, and one more inside it. -/
def siblings : Store Nat :=
  ((((((empty : Store Nat).ask (.make none)).ask (.define 0 "a" 1)).ask (.make (some 0))).ask
    (.define 1 "a" 2)).ask (.make (some 1))).ask (.make (some 0))

/-- What the innermost frame assigns is seen from the frame around it and not from the root
or from the frame beside. -/
theorem Forest.laws_siblings :
    siblings.Forest ∧ ∃ after, siblings.assign? 2 "a" 7 = some after ∧ after.get? 1 "a" = some 7 ∧
      after.get? 0 "a" = some 1 ∧ after.get? 3 "a" = some 1 := by
  have forest : siblings.Forest := by
    unfold siblings
    refine .ask (.ask (.ask (.ask (.ask (.ask .empty ?_) ?_) ?_) ?_) ?_) ?_ <;> decide +kernel
  obtain ⟨-, -, assigns, -, seen, -⟩ := forest.laws 2 "a" 7
  obtain ⟨after, assigned⟩ := assigns.mp (by decide +kernel)
  refine ⟨forest, after, assigned, ?_, ?_, ?_⟩ <;> rw [seen after assigned] <;> decide +kernel

end Lox.Store
