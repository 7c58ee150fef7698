import Lox.Proofs.Frames.Settled
import Lox.Proofs.Scoping.Own

/-! Names that only one scope around their use declares.

A frame binds what its scope declares so far, and never more than its text declares.
If no other scope around a use declares the name, then a search along the chain comes
to the same frame as the walk to the recorded distance, or to the globals, however
much the frames on the way have grown since.
-/

set_option autoImplicit false

namespace Lox

variable {allowed : Site → Prop} {wholes : List (List String)} {store : Store Value}
  {regions : List Region} {id distance : Nat} {name : String}

/-- The scope at the recorded distance, and no other around the use, declares the name
somewhere in its text. -/
def Site.Unshadowed (site : Site) : Prop :=
  ∀ (place : Nat) (inside : place < site.regions.length),
    site.name.lexeme ∈ site.regions[place].whole ↔ site.distance = some place

instance : DecidablePred Site.Unshadowed := fun site =>
  inferInstanceAs (Decidable (∀ (place : Nat) (inside : place < site.regions.length),
    site.name.lexeme ∈ site.regions[place].whole ↔ site.distance = some place))

/-- A use has the distance of its name, and no other scope declares the name. -/
structure Site.Sole (site : Site) : Prop where
  exact : site.Exact
  unshadowed : site.Unshadowed

namespace Store.Settled

theorem binds_eq_false {region : Region} (settled : store.Settled allowed wholes)
    (holds : region.Holds wholes store id) (notRoot : id ≠ 0) (undeclared : name ∉ region.whole) :
    store.binds name id = false := by
  rw [Bool.eq_false_iff]
  intro binds
  obtain ⟨whole, here, member⟩ := settled.within notRoot binds
  rw [holds.whole, Option.some.injEq] at here
  exact undeclared (here ▸ member)

theorem holder?_inner {region : Region} {parent : Nat} (settled : store.Settled allowed wholes)
    (split : store.chain id = id :: store.chain parent) (notRoot : id ≠ 0)
    (holds : region.Holds wholes store id) (undeclared : name ∉ region.whole) :
    store.holder? id name = store.holder? parent name := by
  unfold Store.holder?
  rw [split, List.find?_cons_of_neg]
  rw [settled.binds_eq_false holds notRoot undeclared]
  exact Bool.false_ne_true

theorem holder?_undeclared (settled : store.Settled allowed wholes)
    (fits : Region.Fits wholes store id regions)
    (undeclared : ∀ region ∈ regions, name ∉ region.whole) :
    store.holder? id name = store.holder? 0 name := by
  induction regions generalizing id with
  | nil =>
    rw [Store.Along.eq_zero fits]
  | cons region outer ih =>
    obtain ⟨parent, split, notRoot, holds, fitsOuter⟩ := Store.Along.chain_inner fits
    have passes := settled.holder?_inner split notRoot holds (undeclared region List.mem_cons_self)
    rw [passes]
    exact ih fitsOuter fun other member => undeclared other (.tail _ member)

/-- The search ends at the first scope that declares the name, if that does so before
the use. -/
theorem holder?_declared {region : Region} (settled : store.Settled allowed wholes)
    (fits : Region.Fits wholes store id regions) (here : regions[distance]? = some region)
    (declares : name ∈ region.names)
    (undeclared : ∀ place < distance, ∀ other, regions[place]? = some other → name ∉ other.whole) :
    ∃ found, (store.chain id)[distance]? = some found ∧ store.binds name found = true ∧
      store.holder? id name = some found := by
  induction distance generalizing id regions with
  | zero =>
    cases regions with
    | nil => cases here
    -- The current frame belongs to the scope that is looked for.
    | cons first outer =>
      cases here
      obtain ⟨parent, split, notRoot, holds, _⟩ := Store.Along.chain_inner fits
      have binds := holds.names name declares
      refine ⟨id, Store.Along.chain_zero fits, binds, ?_⟩
      unfold Store.holder?
      rw [split, List.find?_cons_of_pos binds]
  | succ distance ih =>
    cases regions with
    | nil => cases here
    | cons first outer =>
      obtain ⟨parent, split, notRoot, holds, fitsOuter⟩ := Store.Along.chain_inner fits
      -- Its text does not declare the name, so the current frame will never bind it.
      have passes := settled.holder?_inner split notRoot holds
        (undeclared 0 (Nat.zero_lt_succ distance) first rfl)
      obtain ⟨found, at_, rest⟩ := ih fitsOuter here fun place before =>
        undeclared (place + 1) (Nat.succ_lt_succ before)
      rw [split, passes]
      exact ⟨found, at_, rest⟩

end Store.Settled

namespace Site.Sole

variable {pending : Option String} {assigned : Bool} {token : Token} {place : Nat}

theorem undeclared (sole : Sole ⟨regions, pending, assigned, token, none⟩) :
    ∀ region ∈ regions, token.lexeme ∉ region.whole := by
  intro region member
  obtain ⟨place, inside, rfl⟩ := List.getElem_of_mem member
  intro declares
  cases (sole.unshadowed place inside).mp declares

/-- The scope at the recorded distance declares the name before the use, and no other
does so anywhere. -/
theorem declared (sole : Sole ⟨regions, pending, assigned, token, some distance⟩) :
    ∃ region, regions[distance]? = some region ∧ token.lexeme ∈ region.names ∧
      ∀ place < distance, ∀ other, regions[place]? = some other → token.lexeme ∉ other.whole := by
  obtain ⟨bound, declares, _⟩ := List.findIdx?_eq_some_iff_getElem.mp sole.exact.symm
  refine ⟨regions[distance], List.getElem?_eq_getElem bound, by simpa using declares, ?_⟩
  intro place before other here
  obtain ⟨inside, rfl⟩ := List.getElem?_eq_some_iff.mp here
  intro shadows
  have same : some distance = some place := (sole.unshadowed place inside).mp shadows
  rw [Option.some.injEq] at same
  omega

end Site.Sole

namespace Machine.Stands

variable {machine : Machine} {pending : Option String} {assigned : Bool} {token : Token}
  {distance : Option Nat}

/-- Both ways to look a name up come to the same frame. -/
theorem locate_eq (stands : machine.Stands allowed wholes regions)
    (sole : Site.Sole ⟨regions, pending, assigned, token, distance⟩) :
    machine.locate .lexical token distance = machine.locate .dynamic token none := by
  cases distance with
  | none =>
    have same : machine.store.holder? machine.frame token.lexeme =
        machine.store.holder? globals token.lexeme :=
      stands.settled.holder?_undeclared stands.fits sole.undeclared
    simp only [locate, searchFrame, same]
  | some distance =>
    obtain ⟨region, here, declares, others⟩ := sole.declared
    obtain ⟨found, at_, binds, holder⟩ :=
      stands.settled.holder?_declared stands.fits here declares others
    have walk : machine.store.locate machine.frame distance token.lexeme = .ok found := by
      simp only [Store.locate, at_, binds, if_true]
    simp only [locate, searchFrame, walk, holder]

/-- Both ways to look a name up come to the same value. -/
theorem read_eq (stands : machine.Stands allowed wholes regions)
    (sole : Site.Sole ⟨regions, pending, assigned, token, distance⟩) :
    machine.read .lexical token distance = machine.read .dynamic token none := by
  cases distance with
  | none =>
    have same : machine.store.holder? machine.frame token.lexeme =
        machine.store.holder? globals token.lexeme :=
      stands.settled.holder?_undeclared stands.fits sole.undeclared
    simp only [read, searchFrame, Store.get?, same]
  | some distance =>
    obtain ⟨region, here, declares, others⟩ := sole.declared
    obtain ⟨found, at_, binds, holder⟩ :=
      stands.settled.holder?_declared stands.fits here declares others
    obtain ⟨value, bound⟩ := Store.binds_iff.mp binds
    have walk : machine.store.getAt machine.frame distance token.lexeme = .ok value := by
      simp only [Store.getAt, at_, bound]
    have search : machine.store.get? machine.frame token.lexeme = some value := by
      rw [Store.get?, holder, Option.bind_some, bound]
    simp only [read, searchFrame, walk, search]

end Machine.Stands

end Lox
