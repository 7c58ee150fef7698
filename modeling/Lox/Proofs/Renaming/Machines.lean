import Lox.Proofs.Renaming.Memory
import Lox.Proofs.Run.Pairs

/-! Machines of a program and of the same program with other names.

They stand in the same frame, on whose chain the marks of the scopes around are laid. What one
reads, assigns or defines there, the other does under the name that it has.
-/

set_option autoImplicit false

namespace Lox

variable {names : Renaming} {marked more : List Bool} {marks : List Bool} {machine other : Machine}
  {value second : Value}

/-- The same failure, or the name that is missing and what it becomes. -/
inductive Failure.Renamed (names : Renaming) : Failure → Failure → Prop where
  | same (failure : Failure) : Renamed names failure failure
  | missing (name : String) : Renamed names (.fault (.store (.missing name)))
      (.fault (.store (.missing (names.change name))))

theorem Failure.Renamed.under (mark : Bool) (name : String) :
    Renamed names (.fault (.store (.missing name)))
      (.fault (.store (.missing (names.under mark name)))) := by
  cases mark with
  | false => exact .same _
  | true => exact .missing name

structure Machine.Renamed (names : Renaming) (marked : List Bool) (machine other : Machine) :
    Prop where
  store : machine.store.Renamed names marked other.store
  printed : other.printed = machine.printed
  closures : other.closures = machine.closures
  readings : other.readings = machine.readings

/-- Both machines stand in the same place, with marked scopes around. -/
structure Machine.RenamedAt (names : Renaming) (marked marks : List Bool) (machine other : Machine) :
    Prop where
  renamed : machine.Renamed names marked other
  frame : other.frame = machine.frame
  depth : other.depth = machine.depth
  around : machine.store.Along (Marked marked) machine.frame marks

namespace Machine.RenamedAt

theorem here (both : machine.RenamedAt names marked marks other) :
    Marked marked machine.frame (markHere marks) :=
  both.renamed.store.marked_at both.around both.around.chain_zero

theorem chain_eq (both : machine.RenamedAt names marked marks other) :
    other.store.chain other.frame = machine.store.chain machine.frame := by
  rw [both.frame]
  exact Store.chain_eq_of_parents both.renamed.store.parents machine.frame

theorem read (both : machine.RenamedAt names marked marks other) {name : Token}
    (known : names.Known name.lexeme) (distance : Option Nat) :
    ResultPairs (ValueIn.Renamed names marked machine.store) (Failure.Renamed names)
      (machine.read .lexical name distance)
      (other.read .lexical (name.rename names (markAt marks distance)) distance) := by
  have store := both.renamed.store
  cases distance with
  | none =>
    unfold Machine.read
    dsimp only [searchFrame, globals]
    rw [store.root.get?_root, store.otherRoot.get?_root]
    rcases store.value? store.unmarked known with ⟨none, noOther⟩ | ⟨value, second, bound, isOther, alike⟩
    · rw [none]
      dsimp only [markAt, Token.rename]
      rw [noOther]
      exact .error (.same _)
    · rw [bound]
      dsimp only [markAt, Token.rename]
      rw [isOther]
      exact .ok alike
  | some distance =>
    unfold Machine.read Store.getAt
    dsimp only [Token.rename]
    rw [both.chain_eq]
    cases here : (machine.store.chain machine.frame)[distance]? with
    | none => exact .error (.same _)
    | some found =>
      dsimp only
      rcases store.value? (store.marked_at both.around here) known with
        ⟨none, noOther⟩ | ⟨value, second, bound, isOther, alike⟩
      · rw [none, noOther]
        exact .error (.under _ _)
      · rw [bound, isOther]
        exact .ok alike

theorem locate (both : machine.RenamedAt names marked marks other) {name : Token}
    (known : names.Known name.lexeme) (distance : Option Nat) :
    ResultPairs (fun found second => second = found ∧ Marked marked found (markAt marks distance))
      (Failure.Renamed names) (machine.locate .lexical name distance)
      (other.locate .lexical (name.rename names (markAt marks distance)) distance) := by
  have store := both.renamed.store
  cases distance with
  -- Among the globals no name is changed.
  | none =>
    unfold Machine.locate
    dsimp only [searchFrame, globals, Token.rename, markAt]
    have same := store.binds_eq store.unmarked known
    rw [Renaming.under_false] at same ⊢
    rw [store.root.holder?_root, store.otherRoot.holder?_root]
    simp only [same]
    cases machine.store.binds name.lexeme 0 with
    | false => exact .error (.same _)
    | true => exact .ok ⟨rfl, store.unmarked⟩
  | some distance =>
    unfold Machine.locate Store.locate
    dsimp only [Token.rename]
    rw [both.chain_eq]
    cases here : (machine.store.chain machine.frame)[distance]? with
    | none => exact .error (.same _)
    | some found =>
      -- The mark of the frame tells whether the name is changed there, as it does for the use.
      have place := store.marked_at both.around here
      have same := store.binds_eq place known
      simp only [same]
      cases machine.store.binds name.lexeme found with
      | false => exact .error (.under _ _)
      | true => exact .ok ⟨rfl, place⟩

/-- What a machine leaves of its frames, in the same place of both programs. -/
theorem unmoved {after after' : Machine} (both : machine.RenamedAt names marked marks other)
    (layout : marked <+: more) {opened : Nat → Prop} (returns : machine.Returns opened after)
    (renamed : after.Renamed names more after') (sameFrame : after'.frame = other.frame)
    (sameDepth : after'.depth = other.depth) : after.RenamedAt names more marks after' where
  renamed := renamed
  frame := by rw [sameFrame, both.frame, returns.frame]
  depth := by rw [sameDepth, both.depth, returns.depth]
  around := by
    rw [returns.frame]
    exact both.around.mono returns.grows fun place => place.mono layout

theorem replace {found : Nat} {mark : Bool} {name : String}
    (both : machine.RenamedAt names marked marks other) (place : Marked marked found mark)
    (known : names.Known name) (alike : ValueIn.Renamed names marked machine.store value second) :
    (machine.replace found name value).RenamedAt names marked marks
      (other.replace found (names.under mark name) second) := by
  have renamed := both.renamed
  have grows : machine.store.Grows (fun _ => True) (machine.store.put found name value) :=
    .put value (.inl trivial)
  exact both.unmoved (List.prefix_refl _) ⟨rfl, rfl, grows⟩
    ⟨renamed.store.put place ⟨fun _ => known, rfl⟩ alike, renamed.printed, renamed.closures,
      renamed.readings⟩ rfl rfl

theorem define {name : String} (both : machine.RenamedAt names marked marks other)
    (known : names.Known name) (alike : ValueIn.Renamed names marked machine.store value second) :
    (machine.define name value).RenamedAt names marked marks
      (other.define (names.under (markHere marks) name) second) := by
  change RenamedAt names marked marks (machine.replace machine.frame name value)
    (other.replace other.frame (names.under (markHere marks) name) second)
  rw [both.frame]
  exact both.replace both.here known alike

theorem enter {parent depth depth' : Nat} {around : List Bool} (mark : Bool)
    (renamed : machine.Renamed names marked other)
    (along : machine.store.Along (Marked marked) parent around) (same : depth' = depth) :
    RenamedAt names (marked ++ [mark]) (mark :: around)
      { machine.enter parent with depth := depth } { other.enter parent with depth := depth' } := by
  have grows : machine.store.Grows (fun _ => True) (machine.store.add (some parent)) := .add _ _
  have layout : marked <+: marked ++ [mark] := List.prefix_append _ _
  constructor
  · exact ⟨renamed.store.add (some parent) mark, renamed.printed, renamed.closures, renamed.readings⟩
  · exact renamed.store.next
  · exact same
  · refine .inner (Store.frame?_add_next ..) rfl along.exists_frame ?_
      (along.mono grows fun place => place.mono layout)
    change (marked ++ [mark])[machine.store.next]? = some mark
    rw [← renamed.store.length, List.getElem?_concat_length]

theorem defineAll {params : List Token} {arguments others : List Value}
    (both : machine.RenamedAt names marked marks other)
    (known : ∀ param ∈ params, names.Known param.lexeme)
    (alike : List.Forall₂ (ValueIn.Renamed names marked machine.store) arguments others) :
    (machine.defineAll params arguments).RenamedAt names marked marks
      (other.defineAll (params.map (Token.rename names (markHere marks))) others) := by
  induction params generalizing machine other arguments others with
  | nil => exact both
  | cons param params ih =>
    cases alike with
    | nil => exact both
    | @cons argument second arguments others first rest =>
      have grows := (machine.extended_define param.lexeme argument).grows
      exact ih (both.define (known param List.mem_cons_self) first)
        (fun param member => known param (.tail _ member))
        (List.Forall₂.imp (fun _ _ alike => alike.mono (List.prefix_refl _) grows) rest)

theorem defineClosure {name : Token} {params : List Token} {body otherBody : List Stmt} {mark : Bool}
    (both : machine.RenamedAt names marked marks other)
    (kept : names.under (markHere marks) name.lexeme = name.lexeme)
    (renamed : Stmt.AllRenamed names (mark :: marks) body otherBody)
    (named : (Stmt.funDecl name params body).Named names.Known) :
    (machine.defineClosure name params body).RenamedAt names marked marks
      (other.defineClosure name (params.map (Token.rename names mark)) otherBody) := by
  have closure : ValueIn.Renamed names marked machine.store
      (.closure ⟨machine.closures, name, params, body, machine.frame⟩) _ :=
    .closure both.around renamed named.2.1 named.2.2
  have defined := both.define named.1 closure
  have kinds := defined.renamed
  rw [kept] at defined kinds
  unfold Machine.defineClosure
  rw [both.renamed.closures, both.frame]
  exact ⟨⟨kinds.store, kinds.printed, rfl, kinds.readings⟩, defined.frame, defined.depth,
    defined.around⟩

theorem enterCall {function : Closure} {body : List Stmt} {mark : Bool} {around : List Bool}
    {arguments others : List Value} (both : machine.RenamedAt names marked marks other)
    (along : machine.store.Along (Marked marked) function.env around)
    (known : ∀ param ∈ function.params, names.Known param.lexeme)
    (alike : List.Forall₂ (ValueIn.Renamed names marked machine.store) arguments others) :
    (machine.enterCall function arguments).RenamedAt names (marked ++ [mark]) (mark :: around)
      (other.enterCall { function with
        params := function.params.map (Token.rename names mark), body := body } others) := by
  have grows : machine.store.Grows (fun _ => True) (machine.store.add (some function.env)) :=
    .add _ _
  have entered := enter mark both.renamed along (congrArg (· + 1) both.depth)
  exact entered.defineAll known (List.Forall₂.imp
    (fun _ _ alike => alike.mono (List.prefix_append _ _) grows) alike)

end Machine.RenamedAt

end Lox
