import Lox.Proofs.Frames.Growth
import Lox.Proofs.Frames.Paired
import Lox.Proofs.Renaming.Trees
import Lox.Proofs.Values

/-! Frames of a program and of the same program with other names.

Each frame has a mark, which is the mark of the scope that it was made for. Both programs
have the same frames, and a frame binds the same names in the same order, changed if
it is marked. The root is not.
-/

set_option autoImplicit false

namespace Lox

def Marked (marked : List Bool) (id : Nat) (mark : Bool) : Prop := marked[id]? = some mark

theorem Marked.mono {marked more : List Bool} {id : Nat} {mark : Bool} (place : Marked marked id mark)
    (layout : marked <+: more) : Marked more id mark :=
  getElem?_of_prefix layout place

namespace Renaming

/-- A name, and what it becomes in a scope. Where names change, it is a known one. -/
def Tells (names : Renaming) (mark : Bool) (name other : String) : Prop :=
  (mark → names.Known name) ∧ names.under mark name = other

theorem apart_tells (names : Renaming) (mark : Bool) : Frame.Apart (names.Tells mark) := by
  rintro name _ second _ ⟨known, rfl⟩ ⟨knownSecond, rfl⟩
  refine ⟨congrArg _, fun same => ?_⟩
  cases mark with
  | false => exact same
  | true => exact under_inj (known rfl) (knownSecond rfl) same

end Renaming

/-- The same constant, or the same closure with other names. -/
inductive ValueIn.Renamed (names : Renaming) (marked : List Bool) (store : Store Value) :
    Value → Value → Prop where
  | literal (constant : Literal) : Renamed names marked store (.literal constant) (.literal constant)
  | native (function : Native) : Renamed names marked store (.native function) (.native function)
  | closure {function : Closure} {body : List Stmt} {mark : Bool} {marks : List Bool} :
      store.Along (Marked marked) function.env marks →
      Stmt.AllRenamed names (mark :: marks) function.body body →
      (∀ param ∈ function.params, names.Known param.lexeme) →
      Stmt.AllNamed names.Known function.body →
      Renamed names marked store (.closure function)
        (.closure { function with
          params := function.params.map (Token.rename names mark)
          body := body })

variable {names : Renaming} {marked more : List Bool} {marks : List Bool}
  {store other grown : Store Value} {opened : Nat → Prop} {value second : Value} {id : Nat}

theorem ValueIn.Renamed.mono (renamed : ValueIn.Renamed names marked store value second)
    (layout : marked <+: more) (grows : store.Grows opened grown) :
    ValueIn.Renamed names more grown value second := by
  cases renamed with
  | literal constant => exact .literal constant
  | native function => exact .native function
  | closure along renamed known named =>
    exact .closure (along.mono grows fun place => place.mono layout) renamed known named

theorem ValueIn.Renamed.face_eq (renamed : ValueIn.Renamed names marked store value second) :
    second.face = value.face := by
  cases renamed with
  | closure => simp [face]
  | _ => rfl

structure Store.Renamed (names : Renaming) (marked : List Bool) (store other : Store Value) :
    Prop where
  length : marked.length = store.next
  next : other.next = store.next
  root : store.Along (Marked marked) 0 []
  unmarked : Marked marked 0 false
  parents : ∀ id, (other.frame? id).map Frame.parent = (store.frame? id).map Frame.parent
  bindings : ∀ {id : Nat} {mark : Bool}, Marked marked id mark →
    Frame.Paired (names.Tells mark) (ValueIn.Renamed names marked store) (store.bindings id)
      (other.bindings id)

theorem Store.frame?_put_parent {α : Type} (store : Store α) (id other : Nat) (name : String)
    (value : α) :
    ((store.put id name value).frame? other).map Frame.parent =
      (store.frame? other).map Frame.parent := by
  rw [frame?_put]
  split
  · rw [Option.map_map]
    rfl
  · rfl

namespace Store.Renamed

variable {name : String}

theorem exists_mark (renamed : store.Renamed names marked other) (exist : id < store.next) :
    ∃ mark, Marked marked id mark :=
  ⟨_, List.getElem?_eq_getElem (renamed.length ▸ exist)⟩

theorem otherRoot (renamed : store.Renamed names marked other) : other.Along (Marked marked) 0 [] := by
  cases renamed.root with
  | root found isRoot =>
    have parents := renamed.parents 0
    rw [found, Option.map_some, isRoot] at parents
    obtain ⟨frame, isFrame, outer⟩ := Option.map_eq_some_iff.mp parents
    exact .root isFrame outer

theorem put {mark : Bool} {otherName : String} (renamed : store.Renamed names marked other)
    (place : Marked marked id mark) (told : names.Tells mark name otherName)
    (alike : ValueIn.Renamed names marked store value second) :
    (store.put id name value).Renamed names marked (other.put id otherName second) := by
  have grows : store.Grows (fun _ => True) (store.put id name value) := .put value (.inl trivial)
  have exist : id < store.next := renamed.length ▸ (List.getElem?_eq_some_iff.mp place).1
  constructor
  · rw [next_put, renamed.length]
  · rw [next_put, next_put, renamed.next]
  · exact renamed.root.mono grows fun place => place
  · exact renamed.unmarked
  · intro frame
    rw [frame?_put_parent, frame?_put_parent, renamed.parents]
  · intro frame markOf placed
    have still := (renamed.bindings placed).mono fun alike => alike.mono (List.prefix_refl _) grows
    rw [bindings_put exist, bindings_put (renamed.next ▸ exist)]
    by_cases same : id = frame
    · subst same
      obtain rfl : mark = markOf := Option.some.inj (place.symm.trans placed)
      rw [if_pos rfl, if_pos rfl]
      exact still.bind (names.apart_tells mark) told (alike.mono (List.prefix_refl _) grows)
    · rw [if_neg same, if_neg same]
      exact still

theorem add (renamed : store.Renamed names marked other) (parent : Option Nat) (mark : Bool) :
    (store.add parent).Renamed names (marked ++ [mark]) (other.add parent) := by
  have grows : store.Grows (fun _ => True) (store.add parent) := .add store parent
  have layout : marked <+: marked ++ [mark] := List.prefix_append _ _
  constructor
  · rw [List.length_append, renamed.length, next_add, List.length_singleton]
  · rw [next_add, next_add, renamed.next]
  · exact renamed.root.mono grows fun place => place.mono layout
  · exact renamed.unmarked.mono layout
  · intro id
    rw [frame?_add_eq, frame?_add_eq, renamed.next]
    split
    · rfl
    · exact renamed.parents id
  · intro id markOf placed
    by_cases old : id < store.next
    · obtain ⟨mark, place⟩ := renamed.exists_mark old
      obtain rfl : mark = markOf := Option.some.inj ((place.mono layout).symm.trans placed)
      rw [bindings_add old, bindings_add (renamed.next ▸ old)]
      exact (renamed.bindings place).mono fun alike => alike.mono layout grows
    -- The only other frame is the new one, in which nothing is bound.
    · have last : id = store.next := by
        have bound := (List.getElem?_eq_some_iff.mp placed).1
        rw [List.length_append, renamed.length, List.length_singleton] at bound
        omega
      subst last
      unfold Store.bindings
      rw [frame?_add_next, ← renamed.next, frame?_add_next]
      exact .nil

theorem value? {mark : Bool} (renamed : store.Renamed names marked other)
    (place : Marked marked id mark) (known : names.Known name) :
    (store.value? id name = none ∧ other.value? id (names.under mark name) = none) ∨
      ∃ value second, store.value? id name = some value ∧
        other.value? id (names.under mark name) = some second ∧
        ValueIn.Renamed names marked store value second := by
  rw [value?_eq_lookup, value?_eq_lookup]
  exact (renamed.bindings place).lookup (names.apart_tells mark) ⟨fun _ => known, rfl⟩

theorem binds_eq {mark : Bool} (renamed : store.Renamed names marked other)
    (place : Marked marked id mark) (known : names.Known name) :
    other.binds (names.under mark name) id = store.binds name id := by
  rw [Store.binds_eq, Store.binds_eq]
  rcases renamed.value? place known with ⟨none, noOther⟩ | ⟨_, _, found, isOther, _⟩
  · rw [none, noOther]
  · rw [found, isOther]
    rfl

theorem marked_at (renamed : store.Renamed names marked other)
    (around : store.Along (Marked marked) id marks) {distance found : Nat}
    (here : (store.chain id)[distance]? = some found) :
    Marked marked found (markAt marks (some distance)) := by
  unfold markAt
  dsimp only
  rw [List.getD_eq_getElem?_getD]
  rcases around.item_or_root here with ⟨mark, isMark, place⟩ | ⟨outside, rfl⟩
  · rw [isMark]
    exact place
  · rw [outside]
    exact renamed.unmarked

end Store.Renamed

end Lox
