import Lox.Proofs.Renaming.Trees
import Lox.Proofs.Scoping.Accepted

/-! Resolving names that are changed in some scopes.

The scopes declare other names then, but as names stay apart, the nearest scope that
declares a name is the same as before. So the program is accepted again, and each use gets
the distance that it had.
-/

set_option autoImplicit false

namespace Lox

variable {names : Renaming} {marks : List Bool}

def Region.rename (names : Renaming) (mark : Bool) (region : Region) : Region :=
  ⟨region.names.map (names.under mark), region.whole.map (names.under mark)⟩

/-- The regions around a place, once some of them are marked. -/
inductive Region.AllRenamed (names : Renaming) : List Bool → List Region → List Region → Prop where
  | nil : AllRenamed names [] [] []
  | cons {mark : Bool} {marks : List Bool} {region : Region} {regions others : List Region} :
      (∀ name ∈ region.names, names.Known name) → AllRenamed names marks regions others →
      AllRenamed names (mark :: marks) (region :: regions) (region.rename names mark :: others)

namespace Region.AllRenamed

variable {regions others : List Region}

theorem distance?_eq (renamed : AllRenamed names marks regions others) {name : String}
    (known : names.Known name) :
    distance? others (names.under (markAt marks (distance? regions name)) name) =
      distance? regions name := by
  unfold distance?
  induction renamed with
  | nil => rfl
  | @cons mark marks region regions others knows _ ih =>
    rw [List.findIdx?_cons, List.findIdx?_cons]
    by_cases declares : name ∈ region.names
    · simp [declares, Region.rename, markAt, List.mem_map_of_mem]
    · have further : ∀ distance : Option Nat,
          markAt (mark :: marks) (distance.map (· + 1)) = markAt marks distance := by
        intro distance
        cases distance <;> rfl
      have absent : names.under (markAt marks (List.findIdx? (name ∈ ·.names) regions)) name ∉
          (region.rename names mark).names := by
        intro member
        obtain ⟨other, declared, same⟩ := List.mem_map.mp member
        exact declares (Renaming.under_inj (knows other declared) known same ▸ declared)
      simp [declares, further, absent, ih]

theorem declare (renamed : AllRenamed names marks regions others) {name : Token}
    (known : names.Known name.lexeme) :
    AllRenamed names marks (Region.declare name regions)
      (Region.declare (name.rename names (markHere marks)) others) := by
  cases renamed with
  | nil => exact .nil
  | cons knows rest =>
    exact .cons (fun other member => (List.mem_cons.mp member).elim (· ▸ known) (knows other)) rest

theorem pending?_eq (renamed : AllRenamed names marks regions others) (name : Token) :
    pending? others (name.rename names (markHere marks)) =
      (pending? regions name).map (names.under (markHere marks)) := by
  cases renamed <;> rfl

end Region.AllRenamed

section
variable {regions others : List Region} {pending : Option String}

theorem Site.Located.rename (renamed : Region.AllRenamed names marks regions others)
    (knownPending : ∀ variable_ ∈ pending, names.Known variable_) {assigned : Bool} {name : Token}
    {distance : Option Nat} (known : names.Known name.lexeme)
    (located : Site.Located ⟨regions, pending, assigned, name, distance⟩) :
    Site.Located ⟨others, pending.map (names.under (markHere marks)), assigned,
      name.rename names (markAt marks distance), distance⟩ := by
  rcases located with ⟨own, isAssigned, zero⟩ | ⟨other, same⟩
  · change pending = some name.lexeme at own
    change distance = some 0 at zero
    subst own zero
    exact .inl ⟨rfl, isAssigned, rfl⟩
  · change pending ≠ some name.lexeme at other
    change distance = Region.distance? regions name.lexeme at same
    refine .inr ⟨fun clash => ?_, ?_⟩
    · obtain ⟨variable_, isPending, changed⟩ := Option.map_eq_some_iff.mp clash
      exact other (isPending.trans
        (congrArg some (Renaming.under_inj (knownPending variable_ isPending) known changed)))
    · subst same
      exact (renamed.distance?_eq known).symm

mutual

theorem Expr.proper_rename : ∀ expr : Expr, expr.Proper → (expr.rename names marks).Proper
  | .literal _, _ | .reference .., _ => trivial
  | .grouping inner, proper => inner.proper_rename proper
  | .unary _ operand, proper => ⟨proper.1, operand.proper_rename proper.2⟩
  | .binary left _ right, proper =>
    ⟨left.proper_rename proper.1, proper.2.1, right.proper_rename proper.2.2⟩
  | .logical left _ right, proper => ⟨left.proper_rename proper.1, right.proper_rename proper.2⟩
  | .assign _ value _, proper => value.proper_rename proper
  | .call callee _ arguments, proper =>
    ⟨callee.proper_rename proper.1, allProper_renameAll arguments proper.2⟩

theorem Expr.allProper_renameAll : ∀ exprs : List Expr, AllProper exprs →
    AllProper (renameAll names marks exprs)
  | [], _ => trivial
  | first :: others, proper =>
    ⟨first.proper_rename proper.1, allProper_renameAll others proper.2⟩

end

mutual

theorem Expr.everyUse_rename (renamed : Region.AllRenamed names marks regions others)
    (knownPending : ∀ variable_ ∈ pending, names.Known variable_) : ∀ expr : Expr,
    expr.Named names.Known → expr.EveryUse Site.Located regions pending →
    (expr.rename names marks).EveryUse Site.Located others
      (pending.map (names.under (markHere marks)))
  | .literal _, _, _ | .misplaced _, _, _ => trivial
  | .grouping inner, named, uses => inner.everyUse_rename renamed knownPending named uses
  | .unary _ operand, named, uses => operand.everyUse_rename renamed knownPending named uses
  | .binary left _ right, named, uses | .logical left _ right, named, uses =>
    ⟨left.everyUse_rename renamed knownPending named.1 uses.1,
      right.everyUse_rename renamed knownPending named.2 uses.2⟩
  | .reference _ _, known, located => Site.Located.rename renamed knownPending known located
  | .assign _ value _, named, uses =>
    ⟨value.everyUse_rename renamed knownPending named.1 uses.1,
      Site.Located.rename renamed knownPending named.2 uses.2⟩
  | .call callee _ arguments, named, uses =>
    ⟨callee.everyUse_rename renamed knownPending named.1 uses.1,
      everyUseIn_renameAll renamed knownPending arguments named.2 uses.2⟩

theorem Expr.everyUseIn_renameAll (renamed : Region.AllRenamed names marks regions others)
    (knownPending : ∀ variable_ ∈ pending, names.Known variable_) : ∀ exprs : List Expr,
    AllNamed names.Known exprs → EveryUseIn Site.Located regions pending exprs →
    EveryUseIn Site.Located others (pending.map (names.under (markHere marks)))
      (renameAll names marks exprs)
  | [], _, _ => trivial
  | first :: others, named, uses =>
    ⟨first.everyUse_rename renamed knownPending named.1 uses.1,
      everyUseIn_renameAll renamed knownPending others named.2 uses.2⟩

end

end

def LocalUse.unnamed (use : LocalUse) : Bool × Nat := (use.assigned, use.distance)

theorem LocalUse.unnamed_ofDistance (assigned : Bool) (name other : Token) (distance : Option Nat) :
    (ofDistance assigned other distance).map unnamed =
      (ofDistance assigned name distance).map unnamed := by
  cases distance <;> rfl

mutual

theorem Expr.localUses_rename : ∀ expr : Expr,
    (expr.rename names marks).localUses.map LocalUse.unnamed = expr.localUses.map LocalUse.unnamed
  | .literal _ | .misplaced _ => rfl
  | .grouping inner => inner.localUses_rename
  | .unary _ operand => operand.localUses_rename
  | .binary left _ right | .logical left _ right => by
    simp only [rename, localUses, List.map_append, left.localUses_rename, right.localUses_rename]
  | .reference name distance => LocalUse.unnamed_ofDistance false name _ distance
  | .assign name value distance => by
    simp only [rename, localUses, List.map_append, value.localUses_rename,
      LocalUse.unnamed_ofDistance true name]
  | .call callee _ arguments => by
    simp only [rename, localUses, List.map_append, callee.localUses_rename,
      localUsesIn_renameAll arguments]

theorem Expr.localUsesIn_renameAll : ∀ exprs : List Expr,
    (localUsesIn (renameAll names marks exprs)).map LocalUse.unnamed =
      (localUsesIn exprs).map LocalUse.unnamed
  | [] => rfl
  | first :: others => by
    simp only [renameAll, localUsesIn, List.map_append, first.localUses_rename,
      localUsesIn_renameAll others]

end

namespace Stmt

variable {stmt other : Stmt} {body otherBody : List Stmt}

theorem Renamed.declared_eq (renamed : Renamed names marks stmt other) :
    other.declared = stmt.declared.map (names.under (markHere marks)) := by
  cases renamed with
  | funDecl mark kept _ => exact congrArg (fun name => [name]) kept.symm
  | _ => rfl

theorem Renamed.declared_eq_nil (renamed : Renamed names marks stmt other)
    (nothing : stmt.declared = []) : other.declared = [] := by
  rw [renamed.declared_eq, nothing]
  rfl

theorem AllRenamed.declaredIn_eq {mark : Bool} (renamed : AllRenamed names (mark :: marks) body otherBody) :
    declaredIn otherBody = (declaredIn body).map (names.under mark) := by
  induction body generalizing otherBody with
  | nil =>
    cases renamed
    rfl
  | cons first stmts ih =>
    cases renamed with
    | cons one rest =>
      simp only [declaredIn, List.flatMap_cons, List.map_append] at ih ⊢
      rw [one.declared_eq, ih rest]
      rfl

theorem AllRenamed.ofBlock_eq {mark : Bool} (renamed : AllRenamed names (mark :: marks) body otherBody) :
    Region.ofBlock otherBody = (Region.ofBlock body).rename names mark := by
  unfold Region.ofBlock
  rw [renamed.declaredIn_eq]
  rfl

theorem AllRenamed.ofFunction_eq {mark : Bool} (renamed : AllRenamed names (mark :: marks) body otherBody)
    (params : List Token) :
    Region.ofFunction (params.map (Token.rename names mark)) otherBody =
      (Region.ofFunction params body).rename names mark := by
  unfold Region.ofFunction
  rw [renamed.declaredIn_eq]
  simp [Region.rename, Token.rename, Function.comp_def]

theorem Renamed.behind {regions others : List Region} (renamed : Renamed names marks stmt other)
    (named : stmt.Named names.Known) (around : Region.AllRenamed names marks regions others) :
    Region.AllRenamed names marks (stmt.behind regions) (other.behind others) := by
  cases renamed with
  | @varDecl _ name initializer =>
    cases initializer with
    | none => exact around.declare named
    | some initializer => exact around.declare named.1
  | @funDecl _ name params _ _ mark kept _ =>
    have same : name.rename names (markHere marks) = name := by
      unfold Token.rename
      rw [kept]
    have declared := around.declare named.1
    rwa [same] at declared
  | _ => exact around

theorem Renamed.inFunction {regions others : List Region} {name : Token} {params : List Token}
    {mark : Bool} (kept : names.under (markHere marks) name.lexeme = name.lexeme)
    (renamed : AllRenamed names (mark :: marks) body otherBody)
    (named : (Stmt.funDecl name params body).Named names.Known)
    (around : Region.AllRenamed names marks regions others) :
    Region.AllRenamed names (mark :: marks)
      (Region.ofFunction params body :: Region.declare name regions)
      (Region.ofFunction (params.map (Token.rename names mark)) otherBody ::
        Region.declare name others) := by
  rw [renamed.ofFunction_eq]
  refine .cons (fun declared member => ?_) ((Renamed.funDecl mark kept renamed).behind named around)
  obtain ⟨param, isParam, rfl⟩ := List.mem_map.mp (List.mem_reverse.mp member)
  exact named.2.1 param isParam

mutual

theorem Renamed.proper : ∀ {stmt other : Stmt} {marks : List Bool},
    Renamed names marks stmt other → stmt.Proper → other.Proper
  | .expression inner, _, _, .expression, proper | .print inner, _, _, .print, proper =>
    inner.proper_rename proper
  | .varDecl _ none, _, _, .varDecl, _ | .ret _ none, _, _, .ret, _ => trivial
  | .varDecl _ (some initializer), _, _, .varDecl, proper => initializer.proper_rename proper
  | .block _, _, _, .block _ renamed, proper => renamed.allProper proper
  | .conditional condition _ none, _, _, .conditional renamed, proper =>
    ⟨condition.proper_rename proper.1, renamed.proper proper.2.1,
      renamed.declared_eq_nil proper.2.2⟩
  | .conditional condition _ (some _), _, _, .alternative renamed also, proper =>
    ⟨condition.proper_rename proper.1,
      ⟨renamed.proper proper.2.1.1, renamed.declared_eq_nil proper.2.1.2⟩,
      also.proper proper.2.2.1, also.declared_eq_nil proper.2.2.2⟩
  | .loop condition _, _, _, .loop renamed, proper =>
    ⟨condition.proper_rename proper.1, renamed.proper proper.2.1,
      renamed.declared_eq_nil proper.2.2⟩
  | .funDecl _ _ _, _, _, .funDecl _ _ renamed, proper => renamed.allProper proper
  | .ret _ (some value), _, _, .ret, proper => value.proper_rename proper

theorem AllRenamed.allProper : ∀ {stmts others : List Stmt} {marks : List Bool},
    AllRenamed names marks stmts others → AllProper stmts → AllProper others
  | [], _, _, .nil, _ => trivial
  | _ :: _, _, _, .cons one rest, proper => ⟨one.proper proper.1, rest.allProper proper.2⟩

end

mutual

theorem Renamed.returnsInside : ∀ {stmt other : Stmt} {marks : List Bool} {inFunction : Bool},
    Renamed names marks stmt other → stmt.ReturnsInside inFunction → other.ReturnsInside inFunction
  | .expression _, _, _, _, .expression, _ | .print _, _, _, _, .print, _
  | .varDecl _ _, _, _, _, .varDecl, _ | .misplaced _, _, _, _, .misplaced, _ => trivial
  | .block _, _, _, _, .block _ renamed, inside => renamed.allReturnInside inside
  | .conditional _ _ none, _, _, _, .conditional renamed, inside => renamed.returnsInside inside
  | .conditional _ _ (some _), _, _, _, .alternative renamed also, inside =>
    ⟨renamed.returnsInside inside.1, also.returnsInside inside.2⟩
  | .loop _ _, _, _, _, .loop renamed, inside => renamed.returnsInside inside
  | .funDecl _ _ _, _, _, _, .funDecl _ _ renamed, inside => renamed.allReturnInside inside
  | .ret _ _, _, _, _, .ret, inside => inside

theorem AllRenamed.allReturnInside : ∀ {stmts others : List Stmt} {marks : List Bool}
    {inFunction : Bool}, AllRenamed names marks stmts others →
    AllReturnInside inFunction stmts → AllReturnInside inFunction others
  | [], _, _, _, .nil, _ => trivial
  | _ :: _, _, _, _, .cons one rest, inside =>
    ⟨one.returnsInside inside.1, rest.allReturnInside inside.2⟩

end

mutual

theorem Renamed.everyUse : ∀ {stmt other : Stmt} {marks : List Bool} {regions others : List Region},
    Renamed names marks stmt other → Region.AllRenamed names marks regions others →
    stmt.Named names.Known → stmt.EveryUse Site.Located regions →
    other.EveryUse Site.Located others
  | .expression inner, _, _, _, _, .expression, around, named, uses
  | .print inner, _, _, _, _, .print, around, named, uses =>
    inner.everyUse_rename around (by simp) named uses
  | .varDecl _ none, _, _, _, _, .varDecl, _, _, _ | .ret _ none, _, _, _, _, .ret, _, _, _
  | .misplaced _, _, _, _, _, .misplaced, _, _, _ => trivial
  | .varDecl name (some initializer), _, _, regions, _, .varDecl, around, named, uses => by
    -- The pending variable is the declared one, whose name is known.
    have knownPending : ∀ variable_ ∈ Region.pending? regions name, names.Known variable_ := by
      intro variable_ pending
      obtain ⟨_, _, rfl⟩ := Option.map_eq_some_iff.mp pending
      exact named.1
    have located := initializer.everyUse_rename around knownPending named.2 uses
    rw [← around.pending?_eq] at located
    exact located
  | .block _, _, _, _, _, .block _ renamed, around, named, uses => by
    rw [EveryUse, renamed.ofBlock_eq]
    exact renamed.everyUseIn (.cons (by simp [Region.ofBlock]) around) named uses
  | .conditional condition _ none, _, _, _, _, .conditional renamed, around, named, uses =>
    ⟨condition.everyUse_rename around (by simp) named.1 uses.1,
      renamed.everyUse around named.2 uses.2⟩
  | .conditional condition _ (some _), _, _, _, _, .alternative renamed also, around, named, uses =>
    ⟨condition.everyUse_rename around (by simp) named.1 uses.1,
      renamed.everyUse around named.2.1 uses.2.1, also.everyUse around named.2.2 uses.2.2⟩
  | .loop condition _, _, _, _, _, .loop renamed, around, named, uses =>
    ⟨condition.everyUse_rename around (by simp) named.1 uses.1,
      renamed.everyUse around named.2 uses.2⟩
  | .funDecl _ _ _, _, _, _, _, .funDecl _ kept renamed, around, named, uses =>
    renamed.everyUseIn (Renamed.inFunction kept renamed named around) named.2.2 uses
  | .ret _ (some value), _, _, _, _, .ret, around, named, uses =>
    value.everyUse_rename around (by simp) named uses

theorem AllRenamed.everyUseIn : ∀ {stmts others : List Stmt} {marks : List Bool}
    {regions otherRegions : List Region}, AllRenamed names marks stmts others →
    Region.AllRenamed names marks regions otherRegions → AllNamed names.Known stmts →
    EveryUseIn Site.Located regions stmts → EveryUseIn Site.Located otherRegions others
  | [], _, _, _, _, .nil, _, _, _ => trivial
  | _ :: _, _, _, _, _, .cons one rest, around, named, uses =>
    ⟨one.everyUse around named.1 uses.1,
      rest.everyUseIn (one.behind named.1 around) named.2 uses.2⟩

end

mutual

theorem Renamed.localUses_eq : ∀ {stmt other : Stmt} {marks : List Bool},
    Renamed names marks stmt other →
    other.localUses.map LocalUse.unnamed = stmt.localUses.map LocalUse.unnamed
  | .expression inner, _, _, .expression | .print inner, _, _, .print => inner.localUses_rename
  | .varDecl _ none, _, _, .varDecl | .ret _ none, _, _, .ret | .misplaced _, _, _, .misplaced => rfl
  | .varDecl _ (some initializer), _, _, .varDecl => initializer.localUses_rename
  | .block _, _, _, .block _ renamed => renamed.localUsesIn_eq
  | .conditional condition _ none, _, _, .conditional renamed => by
    simp only [localUses, List.map_append, condition.localUses_rename, renamed.localUses_eq]
  | .conditional condition _ (some _), _, _, .alternative renamed also => by
    simp only [localUses, List.map_append, condition.localUses_rename, renamed.localUses_eq,
      also.localUses_eq]
  | .loop condition _, _, _, .loop renamed => by
    simp only [localUses, List.map_append, condition.localUses_rename, renamed.localUses_eq]
  | .funDecl _ _ _, _, _, .funDecl _ _ renamed => renamed.localUsesIn_eq
  | .ret _ (some value), _, _, .ret => value.localUses_rename

theorem AllRenamed.localUsesIn_eq : ∀ {stmts others : List Stmt} {marks : List Bool},
    AllRenamed names marks stmts others →
    (localUsesIn others).map LocalUse.unnamed = (localUsesIn stmts).map LocalUse.unnamed
  | [], _, _, .nil => rfl
  | _ :: _, _, _, .cons one rest => by
    simp only [localUsesIn, List.map_append, one.localUses_eq, rest.localUsesIn_eq]

end

end Stmt

/-- A program that is accepted still is once names are changed, and the same distances are
recorded in the same order. -/
theorem resolveProgram_renamed {statements others : List Stmt}
    (renamed : Stmt.AllRenamed names [] statements others)
    (named : Stmt.AllNamed names.Known statements) (proper : Stmt.AllProper statements)
    (uses : Stmt.EveryUseIn Site.Located [] statements)
    (inside : Stmt.AllReturnInside false statements) :
    (resolveProgram others).Yields others (Stmt.localUsesIn others) ∧
      (Stmt.localUsesIn others).map LocalUse.unnamed =
        (Stmt.localUsesIn statements).map LocalUse.unnamed :=
  ⟨resolveProgram_yields (renamed.allProper proper) (renamed.everyUseIn .nil named uses)
    (renamed.allReturnInside inside), renamed.localUsesIn_eq⟩

end Lox
