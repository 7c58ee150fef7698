import Lox.Proofs.Frames.Growth
import Lox.Proofs.Frames.Paired
import Lox.Proofs.Thinning.Trees
import Lox.Proofs.Values

/-! Frames of a program, and of the same program without some of its scopes.

Each frame of the first has a twin, unless it was made for a scope that is left out. Such
a frame binds nothing, and twins bind the same names in the same order. A chain of frames
without those that have no twin is the chain of the twins.
-/

set_option autoImplicit false

namespace Lox

/-- The twins of frames, in the order of the frames; some frames have none. -/
abbrev Twins := List (Option Nat)

def HasTwin (twins : Twins) (id twin : Nat) : Prop := twins[id]? = some (some twin)

def Single (twins : Twins) (id : Nat) : Prop := twins[id]? = some none

section
variable {twins more : Twins} {id twin second : Nat}

theorem HasTwin.mono (has : HasTwin twins id twin) (layout : twins <+: more) :
    HasTwin more id twin :=
  getElem?_of_prefix layout has

theorem Single.mono (single : Single twins id) (layout : twins <+: more) : Single more id :=
  getElem?_of_prefix layout single

theorem HasTwin.unique (has : HasTwin twins id twin) (also : HasTwin twins id second) :
    twin = second := by
  cases has.symm.trans also
  rfl

theorem HasTwin.lt_length (has : HasTwin twins id twin) : id < twins.length :=
  (List.getElem?_eq_some_iff.mp has).1

end

/-- Two chains side by side. The scopes of the first that are kept have twins on the second,
and the others have none. -/
inductive Store.Beside (twins : Twins) (store other : Store Value) : List Bool → Nat → Nat → Prop
  where
  | root {kept : List Bool} {frame second : Frame Value} :
      keptAt kept 0 = true → store.frame? 0 = some frame → frame.parent = none →
      other.frame? 0 = some second → second.parent = none → Beside twins store other kept 0 0
  | inner {kept : List Bool} {id twin parent outer : Nat} {frame second : Frame Value} :
      keptAt kept 0 = true → HasTwin twins id twin →
      store.frame? id = some frame → frame.parent = some parent → parent < id →
      other.frame? twin = some second → second.parent = some outer → outer < twin →
      Beside twins store other kept.tail parent outer → Beside twins store other kept id twin
  | spare {kept : List Bool} {id twin parent : Nat} {frame : Frame Value} :
      Single twins id → store.frame? id = some frame → frame.parent = some parent → parent < id →
      Beside twins store other kept parent twin → Beside twins store other (false :: kept) id twin

namespace Store.Beside

variable {twins more : Twins} {store other grown otherGrown : Store Value} {kept : List Bool}
  {id twin : Nat} {opened otherOpened : Nat → Prop}

theorem mono (beside : Beside twins store other kept id twin) (layout : twins <+: more)
    (grows : store.Grows opened grown) (otherGrows : other.Grows otherOpened otherGrown) :
    Beside more grown otherGrown kept id twin := by
  induction beside with
  | root keeps found isRoot foundOther isRootOther =>
    obtain ⟨frame, found, same⟩ := grows.parent found
    obtain ⟨second, foundOther, sameOther⟩ := otherGrows.parent foundOther
    exact .root keeps found (same.trans isRoot) foundOther (sameOther.trans isRootOther)
  | inner keeps has found isParent above foundOther isOuter aboveOther _ ih =>
    obtain ⟨frame, found, same⟩ := grows.parent found
    obtain ⟨second, foundOther, sameOther⟩ := otherGrows.parent foundOther
    exact .inner keeps (has.mono layout) found (same.trans isParent) above foundOther
      (sameOther.trans isOuter) aboveOther ih
  | spare single found isParent above _ ih =>
    obtain ⟨frame, found, same⟩ := grows.parent found
    exact .spare (single.mono layout) found (same.trans isParent) above ih

theorem along (beside : Beside twins store other kept id twin) :
    (∃ items : List Unit, store.Along (fun _ _ => True) id items) ∧
      ∃ items : List Unit, other.Along (fun _ _ => True) twin items := by
  induction beside with
  | root _ found isRoot foundOther isRootOther =>
    exact ⟨⟨[], .root found isRoot⟩, [], .root foundOther isRootOther⟩
  | inner _ _ found isParent above foundOther isOuter aboveOther _ ih =>
    obtain ⟨⟨items, outer⟩, others, otherOuter⟩ := ih
    exact ⟨⟨() :: items, .inner found isParent above trivial outer⟩,
      () :: others, .inner foundOther isOuter aboveOther trivial otherOuter⟩
  | spare _ found isParent above _ ih =>
    obtain ⟨⟨items, outer⟩, others⟩ := ih
    exact ⟨⟨() :: items, .inner found isParent above trivial outer⟩, others⟩

theorem lt_next (beside : Beside twins store other kept id twin) :
    id < store.next ∧ twin < other.next := by
  obtain ⟨⟨_, along⟩, _, otherAlong⟩ := beside.along
  exact ⟨along.exists_frame, otherAlong.exists_frame⟩

/-- What is found at a distance on one chain has its twin at the distance without the
scopes that are left out on the other. -/
theorem chain_getElem? (beside : Beside twins store other kept id twin) (root : HasTwin twins 0 0)
    {distance : Nat} (keeps : keptAt kept distance = true) :
    ((store.chain id)[distance]? = none ∧ (other.chain twin)[shortened kept distance]? = none) ∨
      ∃ found second, (store.chain id)[distance]? = some found ∧
        (other.chain twin)[shortened kept distance]? = some second ∧ HasTwin twins found second := by
  induction beside generalizing distance with
  -- From the root on no scope is left, so only the distance zero leads anywhere.
  | @root kept _ _ here found isRoot foundOther isRootOther =>
    have whole : store.Along (fun _ _ => True) 0 ([] : List Unit) := .root found isRoot
    have otherWhole : other.Along (fun _ _ => True) 0 ([] : List Unit) := .root foundOther isRootOther
    rw [whole.chain_root, otherWhole.chain_root]
    cases distance with
    | zero => exact .inr ⟨0, 0, rfl, by rw [shortened_zero]; rfl, root⟩
    | succ distance => exact .inl ⟨rfl, by rw [shortened_succ here]; rfl⟩
  | inner here has found isParent above foundOther isOuter aboveOther beside ih =>
    obtain ⟨⟨_, outer⟩, _, otherOuter⟩ := beside.along
    rw [outer.chain_cons found isParent above, otherOuter.chain_cons foundOther isOuter aboveOther]
    cases distance with
    | zero => exact .inr ⟨_, _, rfl, by rw [shortened_zero]; rfl, has⟩
    | succ distance =>
      rw [keptAt_succ] at keeps
      rw [shortened_succ here, List.getElem?_cons_succ, List.getElem?_cons_succ]
      exact ih keeps
  -- A frame without a twin: the walk through it is no step on the other side.
  | spare single found isParent above beside ih =>
    obtain ⟨⟨_, outer⟩, _⟩ := beside.along
    rw [outer.chain_cons found isParent above]
    cases distance with
    | zero => cases keeps
    | succ distance =>
      rw [keptAt_succ] at keeps
      rw [List.getElem?_cons_succ]
      exact ih keeps

end Store.Beside

/-- The same constant, or the same closure without some of the scopes around it. -/
inductive ValueIn.Thinned (twins : Twins) (store other : Store Value) : Value → Value → Prop where
  | literal (constant : Literal) : Thinned twins store other (.literal constant) (.literal constant)
  | native (function : Native) : Thinned twins store other (.native function) (.native function)
  | closure {function : Closure} {body : List Stmt} {env : Nat} {kept : List Bool} :
      store.Beside twins other kept function.env env →
      Stmt.AllThinned (true :: kept) function.body body →
      Thinned twins store other (.closure function)
        (.closure { function with body := body, env := env })

section
variable {twins more : Twins} {store other grown otherGrown : Store Value}
  {opened otherOpened : Nat → Prop} {value second : Value}

theorem ValueIn.Thinned.mono (thinned : ValueIn.Thinned twins store other value second)
    (layout : twins <+: more) (grows : store.Grows opened grown)
    (otherGrows : other.Grows otherOpened otherGrown) :
    ValueIn.Thinned more grown otherGrown value second := by
  cases thinned with
  | literal constant => exact .literal constant
  | native function => exact .native function
  | closure beside body => exact .closure (beside.mono layout grows otherGrows) body

theorem ValueIn.Thinned.face_eq (thinned : ValueIn.Thinned twins store other value second) :
    second.face = value.face := by
  cases thinned <;> rfl

end

structure Store.Thinned (twins : Twins) (store other : Store Value) : Prop where
  length : twins.length = store.next
  below : ∀ {id twin : Nat}, HasTwin twins id twin → twin < other.next
  apart : ∀ {id second twin : Nat}, HasTwin twins id twin → HasTwin twins second twin → id = second
  root : HasTwin twins 0 0
  bottom : store.Beside twins other [] 0 0
  bindings : ∀ {id twin : Nat}, HasTwin twins id twin →
    Frame.Paired (· = ·) (ValueIn.Thinned twins store other) (store.bindings id)
      (other.bindings twin)

namespace Store.Thinned

variable {twins : Twins} {store other : Store Value} {id twin : Nat} {name : String}
  {value second : Value}

theorem put (thinned : store.Thinned twins other) (has : HasTwin twins id twin) (name : String)
    (alike : ValueIn.Thinned twins store other value second) :
    (store.put id name value).Thinned twins (other.put twin name second) := by
  have grows : store.Grows (fun _ => True) (store.put id name value) := .put value (.inl trivial)
  have otherGrows : other.Grows (fun _ => True) (other.put twin name second) :=
    .put second (.inl trivial)
  have exist : id < store.next := thinned.length ▸ has.lt_length
  constructor
  · rw [next_put, thinned.length]
  · intro frame twinOf hasTwin
    rw [next_put]
    exact thinned.below hasTwin
  · exact thinned.apart
  · exact thinned.root
  · exact thinned.bottom.mono (List.prefix_refl _) grows otherGrows
  · intro frame twinOf hasTwin
    have still := (thinned.bindings hasTwin).mono fun alike =>
      alike.mono (List.prefix_refl _) grows otherGrows
    rw [bindings_put exist, bindings_put (thinned.below has)]
    -- The binding changes in one pair of twins, and twins of different frames differ.
    by_cases same : id = frame
    · subst same
      obtain rfl := has.unique hasTwin
      rw [if_pos rfl, if_pos rfl]
      exact still.bind Frame.apart_eq rfl (alike.mono (List.prefix_refl _) grows otherGrows)
    · have differs : twin ≠ twinOf := fun clash => same (thinned.apart has (clash ▸ hasTwin))
      rw [if_neg same, if_neg differs]
      exact still

theorem hasTwin_concat {found : Option Nat} (thinned : store.Thinned twins other)
    (has : HasTwin (twins ++ [found]) id twin) :
    HasTwin twins id twin ∨ id = store.next ∧ found = some twin := by
  unfold HasTwin at has ⊢
  rw [List.getElem?_append] at has
  split at has
  · exact .inl has
  next beyond =>
    rw [List.getElem?_singleton] at has
    split at has
    · exact .inr ⟨by rw [← thinned.length]; omega, Option.some.inj has⟩
    · cases has

theorem skip (thinned : store.Thinned twins other) (parent : Option Nat) :
    (store.add parent).Thinned (twins ++ [none]) other := by
  have grows : store.Grows (fun _ => True) (store.add parent) := .add store parent
  have otherGrows : other.Grows (fun _ => True) other := .refl other
  have layout : twins <+: twins ++ [none] := List.prefix_append _ _
  have old : ∀ {id twin : Nat}, HasTwin (twins ++ [none]) id twin → HasTwin twins id twin :=
    fun has => (thinned.hasTwin_concat has).resolve_right (by simp)
  constructor
  · rw [List.length_append, thinned.length, next_add, List.length_singleton]
  · exact fun has => thinned.below (old has)
  · exact fun has also => thinned.apart (old has) (old also)
  · exact thinned.root.mono layout
  · exact thinned.bottom.mono layout grows otherGrows
  · intro id twin has
    have exist : id < store.next := thinned.length ▸ (old has).lt_length
    rw [bindings_add exist]
    exact (thinned.bindings (old has)).mono fun alike =>
      alike.mono layout grows otherGrows

theorem add (thinned : store.Thinned twins other) (parent outer : Option Nat) :
    (store.add parent).Thinned (twins ++ [some other.next]) (other.add outer) := by
  have grows : store.Grows (fun _ => True) (store.add parent) := .add store parent
  have otherGrows : other.Grows (fun _ => True) (other.add outer) := .add other outer
  have layout : twins <+: twins ++ [some other.next] := List.prefix_append _ _
  -- No frame had the new one for a twin.
  have fresh : ∀ {id : Nat}, ¬ HasTwin twins id other.next :=
    fun has => Nat.lt_irrefl _ (thinned.below has)
  constructor
  · rw [List.length_append, thinned.length, next_add, List.length_singleton]
  · intro id twin has
    rw [next_add]
    rcases thinned.hasTwin_concat has with old | ⟨_, new⟩
    · exact Nat.lt_succ_of_lt (thinned.below old)
    · cases new
      exact Nat.lt_succ_self _
  · intro id second twin has also
    rcases thinned.hasTwin_concat has with old | ⟨rfl, new⟩ <;>
      rcases thinned.hasTwin_concat also with oldAlso | ⟨rfl, newAlso⟩
    · exact thinned.apart old oldAlso
    · cases newAlso
      exact (fresh old).elim
    · cases new
      exact (fresh oldAlso).elim
    · rfl
  · exact thinned.root.mono layout
  · exact thinned.bottom.mono layout grows otherGrows
  · intro id twin has
    rcases thinned.hasTwin_concat has with old | ⟨rfl, new⟩
    · have exist : id < store.next := thinned.length ▸ old.lt_length
      rw [bindings_add exist, bindings_add (thinned.below old)]
      exact (thinned.bindings old).mono fun alike => alike.mono layout grows otherGrows
    · cases new
      unfold Store.bindings
      rw [frame?_add_next, frame?_add_next]
      exact .nil

theorem value? (thinned : store.Thinned twins other) (has : HasTwin twins id twin) (name : String) :
    (store.value? id name = none ∧ other.value? twin name = none) ∨
      ∃ value second, store.value? id name = some value ∧ other.value? twin name = some second ∧
        ValueIn.Thinned twins store other value second := by
  rw [value?_eq_lookup, value?_eq_lookup]
  exact (thinned.bindings has).lookup Frame.apart_eq rfl

theorem binds_eq (thinned : store.Thinned twins other) (has : HasTwin twins id twin)
    (name : String) : other.binds name twin = store.binds name id := by
  rw [Store.binds_eq, Store.binds_eq]
  rcases thinned.value? has name with ⟨none, noOther⟩ | ⟨_, _, found, isOther, _⟩
  · rw [none, noOther]
  · rw [found, isOther]
    rfl

theorem roots (thinned : store.Thinned twins other) :
    store.Along (fun _ _ => True) 0 ([] : List Unit) ∧
      other.Along (fun _ _ => True) 0 ([] : List Unit) := by
  cases thinned.bottom with
  | root _ found isRoot foundOther isRootOther =>
    exact ⟨.root found isRoot, .root foundOther isRootOther⟩
  | inner _ _ _ _ above => exact absurd above (Nat.not_lt_zero _)

end Store.Thinned

end Lox
