import Lox.Proofs.Grammar.Builds
import Lox.Proofs.Scoping.Accepted
import Lox.Proofs.Scoping.Marks

/-! The resolver finds the nearest declarations and the two kinds of errors.

At every place of a program the scopes of the resolver hold the names that the marks before
that place declare, and a variable is not ready exactly within its own initializer. Each
mark keeps this up, so the distances and the errors are those that the marks tell.
-/

set_option autoImplicit false

namespace Lox

open Mark

namespace Scope

structure Kept (scopes after : List Scope) : Prop where
  tail : after.tail = scopes.tail
  length : after.length = scopes.length

theorem Kept.refl (scopes : List Scope) : Kept scopes scopes := ⟨rfl, rfl⟩

theorem Kept.trans {scopes middle after : List Scope} (first : Kept scopes middle)
    (second : Kept middle after) : Kept scopes after :=
  ⟨second.tail.trans first.tail, second.length.trans first.length⟩

theorem kept_mark (name : Token) (ready : Bool) (scopes : List Scope) :
    Kept scopes (mark name ready scopes) := by
  cases scopes <;> exact ⟨rfl, rfl⟩

theorem Kept.exists_cons {scope : Scope} {scopes after : List Scope}
    (kept : Kept (scope :: scopes) after) : ∃ inner, after = inner :: scopes := by
  obtain ⟨tail, length⟩ := kept
  cases after with
  | nil => cases length
  | cons inner outer => exact ⟨inner, congrArg (inner :: ·) tail⟩

theorem declares_cons (scope : Scope) (name other : String) (ready : Bool) :
    declares ((name, ready) :: scope) other = (other == name || declares scope other) := by
  unfold declares ready?
  rw [List.lookup_cons]
  cases other == name <;> rfl

theorem ready?_cons (scope : Scope) (name other : String) (ready : Bool) :
    ready? ((name, ready) :: scope) other = if other = name then some ready else ready? scope other := by
  unfold ready?
  rw [List.lookup_cons]
  by_cases same : other = name
  · simp [same]
  · rw [if_neg same, show (other == name) = false by simpa using same]

end Scope

/-- What the resolver knows behind some marks: its scopes, which of them are functions and
in whose initializer it is. -/
structure Describes (marks : List Mark) (scopes : List Scope) (functions : List Bool)
    (own : Option Token) : Prop where
  opened : Mark.opened marks = some scopes.length
  declares : ∀ name distance, Declares marks name distance ↔
    ∃ scope, scopes[distance]? = some scope ∧ scope.declares name = true
  opens : ∀ distance function, Opens marks distance function ↔
    functions[distance]? = some function
  unready : ∀ name : Token, Scope.unready scopes name = true ↔
    scopes ≠ [] ∧ ∃ token ∈ own, token.lexeme = name.lexeme

namespace Describes

variable {marks : List Mark} {scopes : List Scope} {functions : List Bool} {own : Option Token}

theorem empty : Describes [] [] [] none where
  opened := rfl
  declares name distance := by
    constructor
    · rintro ⟨earlier, token, stands, _⟩
      exact absurd stands not_stands_nil
    · rintro ⟨scope, found, _⟩
      cases found
  opens distance function := by
    constructor
    · rintro ⟨earlier, stands⟩
      exact absurd stands not_stands_nil
    · exact nofun
  unready name := by simp [Scope.unready]

theorem enter (describes : Describes marks scopes functions none) (function : Bool) :
    Describes (marks ++ [.enter function]) ([] :: scopes) (function :: functions) none where
  opened := by
    rw [opened_concat, describes.opened]
    rfl
  declares name distance := by
    rw [declares_concat]
    cases distance <;> simp [Mark.shift, describes.declares, Scope.declares, Scope.ready?]
  opens distance other := by
    rw [opens_concat]
    cases distance <;> simp [Mark.shift, describes.opens, eq_comm]
  unready name := by simp [Scope.unready, Scope.ready?]

theorem leave {scope : Scope} {function : Bool} {before : List Mark}
    (describes : Describes marks (scope :: scopes) (function :: functions) none)
    (outside : Describes before scopes functions none) :
    Describes (marks ++ [.leave]) scopes functions none where
  opened := by
    rw [opened_concat, describes.opened]
    rfl
  declares name distance := by
    rw [declares_leave, describes.declares, List.getElem?_cons_succ]
  opens distance other := by
    rw [opens_leave, describes.opens, List.getElem?_cons_succ]
  unready := outside.unready

theorem declare (describes : Describes marks scopes functions none) (name : Token) (ready : Bool) :
    Describes (marks ++ [.declare name]) (Scope.mark name ready scopes) functions
      (if ready then none else some name) where
  opened := by
    rw [opened_concat, describes.opened, (Scope.kept_mark name ready scopes).length]
    rfl
  declares other distance := by
    rw [declares_declare, describes.declares, describes.opened]
    cases scopes with
    | nil => simp [Scope.mark]
    | cons inner outer =>
      have same : name.lexeme = other ↔ other = name.lexeme := eq_comm
      cases distance <;> simp [Scope.mark, Scope.declares_cons, same]
  opens distance function := by
    rw [opens_declare, describes.opens]
  unready other := by
    have before := describes.unready other
    cases scopes with
    | nil => simp [Scope.mark, Scope.unready]
    | cons inner outer =>
      cases ready <;> simp [Scope.mark, Scope.unready, Scope.ready?_cons] at before ⊢ <;> grind

theorem pass {mark : Mark} (describes : Describes marks scopes functions own)
    (passive : mark.Passive) : Describes (marks ++ [mark]) scopes functions own where
  opened := passive.opened_concat.trans describes.opened
  declares name distance := passive.declares_concat.trans (describes.declares name distance)
  opens distance function := passive.opens_concat.trans (describes.opens distance function)
  unready := describes.unready

theorem passAll {more : List Mark} (passive : ∀ mark ∈ more, mark.Passive) :
    ∀ {marks : List Mark}, Describes marks scopes functions own →
      Describes (marks ++ more) scopes functions own := by
  induction more with
  | nil =>
    intro marks describes
    rw [List.append_nil]
    exact describes
  | cons mark more ih =>
    intro marks describes
    rw [List.append_cons]
    exact ih (fun mark member => passive mark (.tail _ member))
      (describes.pass (passive mark List.mem_cons_self))

theorem distance?_eq_some_iff (describes : Describes marks scopes functions own) (name : Token)
    (distance : Nat) :
    Scope.distance? scopes name = some distance ↔ Nearest marks name.lexeme distance := by
  unfold Scope.distance? Nearest
  rw [List.findIdx?_eq_some_iff_getElem, describes.declares]
  constructor
  · rintro ⟨bound, found, nearer⟩
    refine ⟨⟨_, List.getElem?_eq_getElem bound, found⟩, fun inner less declares => ?_⟩
    obtain ⟨scope, here, also⟩ := (describes.declares _ _).mp declares
    have same := (List.getElem?_eq_some_iff.mp here).2
    exact nearer inner less (same ▸ also)
  · rintro ⟨⟨scope, here, found⟩, nearer⟩
    obtain ⟨bound, same⟩ := List.getElem?_eq_some_iff.mp here
    refine ⟨bound, same ▸ found, fun inner less also => ?_⟩
    refine nearer inner less ((describes.declares _ _).mpr ?_)
    exact ⟨_, List.getElem?_eq_getElem (Nat.lt_trans less bound), also⟩

end Describes

structure Explained (before marks : List Mark) (uses : List LocalUse) (errors : List ScopeError) :
    Prop where
  recorded : uses = marks.filterMap Mark.recorded?
  addressed : Addressed before marks
  reported : Reported before marks (errors.map ScopeError.report)

namespace Explained

variable {before first second : List Mark} {uses more : List LocalUse}
  {errors others : List ScopeError}

theorem nil : Explained before [] [] [] := ⟨rfl, addressed_nil, .nil⟩

theorem append (explained : Explained before first uses errors)
    (also : Explained (before ++ first) second more others) :
    Explained before (first ++ second) (uses ++ more) (errors ++ others) := by
  refine ⟨?_, explained.addressed.append also.addressed, ?_⟩
  · rw [explained.recorded, also.recorded, List.filterMap_append]
  · rw [List.map_append]
    exact explained.reported.append also.reported

theorem single {mark : Mark} (silent : mark.Silent) : Explained before [mark] [] [] := by
  refine ⟨?_, addressed_single ?_, reported_none fun _ => silent.not_misuse⟩
  · cases mark with
    | use _ _ _ _ => cases silent
    | _ => rfl
  · rintro assigned name distance own rfl
    cases silent

end Explained

namespace Describes

variable {before : List Mark} {scopes : List Scope} {functions : List Bool} {own : Option Token}

theorem explains_use (describes : Describes before scopes functions own) {assigned : Bool}
    {name : Token} {errors : List ScopeError}
    (reported : Reported before [.use assigned name (Scope.distance? scopes name) own]
      (errors.map ScopeError.report)) :
    Explained before [.use assigned name (Scope.distance? scopes name) own]
      (LocalUse.ofDistance assigned name (Scope.distance? scopes name)) errors := by
  refine ⟨?_, addressed_use (describes.distance?_eq_some_iff name), reported⟩
  cases Scope.distance? scopes name <;> rfl

theorem explains_assign (describes : Describes before scopes functions own) (name : Token) :
    Explained before [.use true name (Scope.distance? scopes name) own]
      (LocalUse.ofDistance true name (Scope.distance? scopes name)) [] :=
  describes.explains_use (reported_none nofun)

theorem explains_read (describes : Describes before scopes functions own) (name : Token) :
    Explained before [.use false name (Scope.distance? scopes name) own]
      (LocalUse.ofDistance false name (Scope.distance? scopes name))
      (if Scope.unready scopes name then [⟨name, .ownInitializer⟩] else []) := by
  have pending := describes.unready name
  have outside : Mark.opened before ≠ some 0 ↔ scopes ≠ [] := by
    simp [describes.opened]
  apply describes.explains_use
  split
  next unready =>
    obtain ⟨some, token, isOwn, same⟩ := pending.mp unready
    rw [Option.mem_def.mp isOwn]
    exact reported_single (.ownInitializer same (outside.mpr some))
  next ready =>
    apply reported_none
    rintro report misuse
    cases misuse with
    | ownInitializer same local_ =>
      exact ready (pending.mpr ⟨outside.mp local_, _, rfl, same⟩)

theorem explains_ret (describes : Describes before scopes functions own) (keyword : Token) :
    Explained before [.ret keyword] []
      (if !functions.any id then [⟨keyword, .topLevelReturn⟩] else []) := by
  have outside : (∀ distance, ¬ Opens before distance true) ↔ functions.any id = false := by
    simp only [describes.opens]
    rw [List.any_eq_false]
    constructor
    · rintro none function member isFunction
      obtain ⟨distance, found⟩ := List.mem_iff_getElem?.mp member
      exact none distance (found.trans (congrArg some isFunction))
    · rintro none distance found
      exact none true (List.mem_of_getElem? found) rfl
  refine ⟨rfl, addressed_single (by simp), ?_⟩
  cases inside : functions.any id with
  | false => exact reported_single (.topLevelReturn (outside.mpr inside))
  | true =>
    apply reported_none
    rintro report misuse
    cases misuse with
    | topLevelReturn none =>
      rw [outside.mp none] at inside
      cases inside

end Describes

namespace Resolution

variable {α β : Type} {good : α → List LocalUse → List ScopeError → Prop}

def Answers (resolution : Resolution α) (good : α → List LocalUse → List ScopeError → Prop) : Prop :=
  ∃ value uses errors, resolution = .ok value uses errors ∧ good value uses errors

theorem answers_pure {value : α} (holds : good value [] []) :
    Answers (Pure.pure value : Resolution α) good :=
  ⟨value, [], [], rfl, holds⟩

theorem Answers.bind {resolution : Resolution α} {next : α → Resolution β}
    {better : β → List LocalUse → List ScopeError → Prop} (answers : resolution.Answers good)
    (goesOn : ∀ value uses errors, good value uses errors →
      (next value).Answers fun result more others => better result (uses ++ more) (errors ++ others)) :
    Answers (resolution >>= next) better := by
  obtain ⟨value, uses, errors, rfl, holds⟩ := answers
  obtain ⟨result, more, others, same, holds⟩ := goesOn value uses errors holds
  exact ⟨result, uses ++ more, errors ++ others, bind_ok rfl same, holds⟩

theorem Answers.map {resolution : Resolution α} {change : α → β}
    {better : β → List LocalUse → List ScopeError → Prop} (answers : resolution.Answers good)
    (holds : ∀ value uses errors, good value uses errors → better (change value) uses errors) :
    Answers (resolution >>= fun value => Pure.pure (change value)) better := by
  refine answers.bind fun value uses errors known => answers_pure ?_
  rw [List.append_nil, List.append_nil]
  exact holds value uses errors known

theorem answers_noteIf {condition : Bool} {error : ScopeError} :
    (noteIf condition error).Answers fun _ uses errors =>
      uses = [] ∧ errors = if condition then [error] else [] :=
  ⟨(), [], _, rfl, rfl, rfl⟩

theorem answers_useOf {scopes : List Scope} {assigned : Bool} {name : Token} :
    (useOf scopes assigned name).Answers fun distance uses errors =>
      distance = Scope.distance? scopes name ∧
        uses = LocalUse.ofDistance assigned name (Scope.distance? scopes name) ∧ errors = [] := by
  unfold useOf
  cases Scope.distance? scopes name <;> exact ⟨_, _, _, rfl, rfl, rfl, rfl⟩

end Resolution

mutual

theorem Expr.passive_marks : ∀ (expr : Expr) {own : Option Token},
    ∀ mark ∈ expr.marks own, mark.Passive
  | .literal _, _ | .misplaced _, _ => List.forall_mem_nil _
  | .grouping inner, _ => inner.passive_marks
  | .unary _ operand, _ => operand.passive_marks
  | .binary left _ right, _ | .logical left _ right, _ =>
    List.forall_mem_append.mpr ⟨left.passive_marks, right.passive_marks⟩
  | .reference _ _, _ => List.forall_mem_singleton.mpr trivial
  | .assign _ value _, _ =>
    List.forall_mem_append.mpr ⟨value.passive_marks, List.forall_mem_singleton.mpr trivial⟩
  | .call callee _ arguments, _ =>
    List.forall_mem_append.mpr ⟨callee.passive_marks, passive_marksIn arguments⟩

theorem Expr.passive_marksIn : ∀ (exprs : List Expr) {own : Option Token},
    ∀ mark ∈ marksIn own exprs, mark.Passive
  | [], _ => List.forall_mem_nil _
  | first :: others, _ =>
    List.forall_mem_append.mpr ⟨first.passive_marks, passive_marksIn others⟩

end

section
variable {scopes : List Scope} {functions : List Bool} {own : Option Token}

open Resolution

mutual

theorem Expr.resolve_explained : ∀ (expr : Expr) {before : List Mark}, expr.Proper →
    Describes before scopes functions own →
    (expr.resolve scopes).Answers fun resolved uses errors =>
      resolved.erase = expr.erase ∧ Explained before (resolved.marks own) uses errors
  | .literal _, _, _, _ => answers_pure ⟨rfl, .nil⟩
  | .grouping inner, _, proper, describes =>
    (inner.resolve_explained proper describes).map fun _ _ _ ⟨same, explained⟩ =>
      ⟨congrArg Expr.grouping same, explained⟩
  | .unary operator operand, _, proper, describes =>
    (operand.resolve_explained proper.2 describes).map fun _ _ _ ⟨same, explained⟩ =>
      ⟨congrArg (Expr.unary operator) same, explained⟩
  | .binary left operator right, _, proper, describes =>
    (left.resolve_explained proper.1 describes).bind fun found _ _ ⟨same, explained⟩ =>
      (right.resolve_explained proper.2.2 (describes.passAll found.passive_marks)).map
        fun _ _ _ ⟨also, more⟩ =>
          ⟨congrArg₂ (Expr.binary · operator ·) same also, explained.append more⟩
  | .logical left operator right, _, proper, describes =>
    (left.resolve_explained proper.1 describes).bind fun found _ _ ⟨same, explained⟩ =>
      (right.resolve_explained proper.2 (describes.passAll found.passive_marks)).map
        fun _ _ _ ⟨also, more⟩ =>
          ⟨congrArg₂ (Expr.logical · operator ·) same also, explained.append more⟩
  | .reference name _, _, _, describes =>
    -- The error about the own initializer is noted before the use is recorded.
    answers_noteIf.bind fun _ _ _ ⟨noUses, noted⟩ =>
      answers_useOf.map fun _ _ _ ⟨found, used, noErrors⟩ => by
        subst noUses noted found used noErrors
        rw [List.nil_append, List.append_nil]
        exact ⟨rfl, describes.explains_read name⟩
  | .assign name value _, _, proper, describes =>
    -- The value is resolved first; its marks leave the scopes as they are.
    (value.resolve_explained proper describes).bind fun result _ _ ⟨same, explained⟩ =>
      answers_useOf.map fun _ _ _ ⟨found, used, noErrors⟩ => by
        subst found used noErrors
        exact ⟨congrArg (Expr.assign name · none) same,
          explained.append ((describes.passAll result.passive_marks).explains_assign name)⟩
  | .call callee paren arguments, _, proper, describes =>
    (callee.resolve_explained proper.1 describes).bind fun found _ _ ⟨same, explained⟩ =>
      (resolveAll_explained arguments proper.2 (describes.passAll found.passive_marks)).map
        fun _ _ _ ⟨also, more⟩ =>
          ⟨congrArg₂ (Expr.call · paren ·) same also, explained.append more⟩

theorem Expr.resolveAll_explained : ∀ (exprs : List Expr) {before : List Mark}, AllProper exprs →
    Describes before scopes functions own →
    (resolveAll scopes exprs).Answers fun resolved uses errors =>
      eraseAll resolved = eraseAll exprs ∧ Explained before (marksIn own resolved) uses errors
  | [], _, _, _ => answers_pure ⟨rfl, .nil⟩
  | first :: others, _, proper, describes =>
    (first.resolve_explained proper.1 describes).bind fun found _ _ ⟨same, explained⟩ =>
      (resolveAll_explained others proper.2 (describes.passAll found.passive_marks)).map
        fun _ _ _ ⟨also, more⟩ => ⟨congrArg₂ List.cons same also, explained.append more⟩

end

theorem Expr.resolveOption_explained {expr : Expr} {before : List Mark} (proper : expr.Proper)
    (describes : Describes before scopes functions own) :
    (resolveOption scopes (some expr)).Answers fun option uses errors =>
      ∃ resolved, option = some resolved ∧ resolved.erase = expr.erase ∧
        Explained before (resolved.marks own) uses errors :=
  (expr.resolve_explained proper describes).map fun resolved _ _ known => ⟨resolved, rfl, known⟩

end

structure Traced (before marks : List Mark) (scopes : List Scope) (functions : List Bool)
    (after : List Scope) (uses : List LocalUse) (errors : List ScopeError) : Prop where
  explained : Explained before marks uses errors
  describes : Describes (before ++ marks) after functions none
  kept : Scope.Kept scopes after

namespace Traced

variable {before first second : List Mark} {scopes middle after : List Scope}
  {functions : List Bool} {uses more : List LocalUse} {errors others : List ScopeError}

theorem nil (describes : Describes before scopes functions none) :
    Traced before [] scopes functions scopes [] [] :=
  ⟨.nil, (List.append_nil before).symm ▸ describes, .refl scopes⟩

theorem trans (traced : Traced before first scopes functions middle uses errors)
    (also : Traced (before ++ first) second middle functions after more others) :
    Traced before (first ++ second) scopes functions after (uses ++ more) (errors ++ others) :=
  ⟨traced.explained.append also.explained, List.append_assoc before first second ▸ also.describes,
    traced.kept.trans also.kept⟩

theorem of_passive (explained : Explained before first uses errors)
    (describes : Describes before scopes functions none)
    (passive : ∀ mark ∈ first, mark.Passive) :
    Traced before first scopes functions scopes uses errors :=
  ⟨explained, describes.passAll passive, .refl scopes⟩

theorem declare (describes : Describes before scopes functions none) (name : Token) :
    Traced before [.declare name] scopes functions (Scope.mark name true scopes) [] [] :=
  ⟨.single trivial, describes.declare name true, Scope.kept_mark name true scopes⟩

theorem params (params : List Token) : ∀ {before : List Mark} {scope : Scope},
    Describes before (scope :: scopes) functions none →
    Traced before (params.map .declare) (scope :: scopes) functions
      (params.foldl (fun scope param => (param.lexeme, true) :: scope) scope :: scopes) [] [] := by
  induction params with
  | nil => exact .nil
  | cons param params ih =>
    intro before scope describes
    have declared := Traced.declare describes param
    exact declared.trans (ih declared.describes)

theorem scope {scope : Scope} {function : Bool} (describes : Describes before scopes functions none)
    (opens : Traced (before ++ [.enter function]) first ([] :: scopes) (function :: functions)
      (scope :: scopes) [] [])
    (inside : Traced (before ++ [.enter function] ++ first) second (scope :: scopes)
      (function :: functions) after uses errors) :
    Traced before (.enter function :: (first ++ second ++ [.leave])) scopes functions scopes
      uses errors := by
  obtain ⟨inner, rfl⟩ := inside.kept.exists_cons
  have whole := opens.trans inside
  have enters : Explained before [.enter function] [] [] := .single trivial
  have leaves : Explained (before ++ [.enter function] ++ (first ++ second)) [.leave] [] [] :=
    .single trivial
  have explained := enters.append (whole.explained.append leaves)
  refine ⟨by simpa using explained, ?_, .refl scopes⟩
  have behind := whole.describes.leave describes
  simpa using behind

end Traced

namespace Stmt

open Resolution

theorem resolve_traced_varDecl {name : Token} {initializer : Option Expr} {before : List Mark}
    {scopes : List Scope} {functions : List Bool} {inFunction : Bool}
    (proper : (Stmt.varDecl name initializer).Proper)
    (describes : Describes before scopes functions none) :
    ((Stmt.varDecl name initializer).resolve scopes inFunction).Answers fun result uses errors =>
      result.1.erase = (Stmt.varDecl name initializer).erase ∧
        Traced before result.1.marks scopes functions result.2 uses errors := by
  have declared := Traced.declare describes name
  cases initializer with
  | none => exact answers_pure ⟨rfl, declared⟩
  | some initializer =>
    -- In its initializer the variable is not ready, and behind it is.
    refine (Expr.resolveOption_explained proper (describes.declare name false)).map ?_
    rintro _ uses errors ⟨resolved, rfl, same, explained⟩
    refine ⟨congrArg (fun inner => Stmt.varDecl name (some inner)) same, ?_⟩
    exact declared.trans (.of_passive explained declared.describes resolved.passive_marks)

theorem resolve_traced_ret {keyword : Token} {value : Option Expr} {before : List Mark}
    {scopes : List Scope} {functions : List Bool} (proper : (Stmt.ret keyword value).Proper)
    (describes : Describes before scopes functions none) :
    ((Stmt.ret keyword value).resolve scopes (functions.any id)).Answers fun result uses errors =>
      result.1.erase = (Stmt.ret keyword value).erase ∧
        Traced before result.1.marks scopes functions result.2 uses errors := by
  have returns := describes.explains_ret keyword
  have passive : ∀ mark ∈ [Mark.ret keyword], mark.Passive := List.forall_mem_singleton.mpr trivial
  refine answers_noteIf.bind ?_
  rintro _ _ _ ⟨rfl, rfl⟩
  cases value with
  | none =>
    refine ⟨_, _, _, rfl, rfl, ?_⟩
    simp only [List.append_nil]
    exact .of_passive returns describes passive
  | some value =>
    have inside := describes.passAll passive
    refine (Expr.resolveOption_explained proper inside).map ?_
    rintro _ uses errors ⟨resolved, rfl, same, explained⟩
    refine ⟨congrArg (fun inner => Stmt.ret keyword (some inner)) same, ?_⟩
    exact (Traced.of_passive returns describes passive).trans
      (.of_passive explained inside resolved.passive_marks)

mutual

theorem resolve_traced : ∀ (stmt : Stmt) {before : List Mark} {scopes : List Scope}
    {functions : List Bool}, stmt.Proper → Describes before scopes functions none →
    (stmt.resolve scopes (functions.any id)).Answers fun result uses errors =>
      result.1.erase = stmt.erase ∧
        Traced before result.1.marks scopes functions result.2 uses errors
  | .expression inner, _, _, _, proper, describes =>
    (inner.resolve_explained proper describes).map fun resolved _ _ ⟨same, explained⟩ =>
      ⟨congrArg Stmt.expression same, .of_passive explained describes resolved.passive_marks⟩
  | .print inner, _, _, _, proper, describes =>
    (inner.resolve_explained proper describes).map fun resolved _ _ ⟨same, explained⟩ =>
      ⟨congrArg Stmt.print same, .of_passive explained describes resolved.passive_marks⟩
  | .varDecl _ _, _, _, _, proper, describes => resolve_traced_varDecl proper describes
  -- The body is told between the marks that open and close its scope.
  | .block body, _, _, functions, proper, describes => by
    have enters := describes.enter false
    refine (resolveAll_traced body proper enters).map fun result uses errors ⟨same, traced⟩ => ?_
    refine ⟨congrArg Stmt.block same, ?_⟩
    exact .scope describes (.nil enters) (by simpa using traced)
  | .conditional condition yes none, _, _, _, proper, describes => by
    refine (condition.resolve_explained proper.1 describes).bind
      fun test uses errors ⟨same, explained⟩ => ?_
    have first := Traced.of_passive explained describes test.passive_marks
    refine (yes.resolve_traced proper.2.1 first.describes).map
      fun result more others ⟨also, traced⟩ => ?_
    exact ⟨congrArg₂ (Stmt.conditional · · none) same also, first.trans traced⟩
  | .conditional condition yes (some no), _, _, _, proper, describes => by
    refine (condition.resolve_explained proper.1 describes).bind
      fun test uses errors ⟨same, explained⟩ => ?_
    have first := Traced.of_passive explained describes test.passive_marks
    refine (yes.resolve_traced proper.2.1.1 first.describes).bind
      fun branch more others ⟨also, traced⟩ => ?_
    refine (no.resolve_traced proper.2.2.1 traced.describes).map
      fun result last final ⟨finally_, rest⟩ => ?_
    refine ⟨?_, ?_⟩
    · simp only [erase, same, also, finally_]
    · exact first.trans (traced.trans rest)
  | .loop condition body, _, _, _, proper, describes => by
    refine (condition.resolve_explained proper.1 describes).bind
      fun test uses errors ⟨same, explained⟩ => ?_
    have first := Traced.of_passive explained describes test.passive_marks
    refine (body.resolve_traced proper.2.1 first.describes).map
      fun result more others ⟨also, traced⟩ => ?_
    exact ⟨congrArg₂ Stmt.loop same also, first.trans traced⟩
  -- The name is declared in front of the scope of the parameters, so the body sees it.
  | .funDecl name params body, before, scopes, functions, proper, describes => by
    have declared := Traced.declare describes name
    have binds := Traced.params params (declared.describes.enter true)
    refine (resolveAll_traced body proper binds.describes).map
      fun result uses errors ⟨same, traced⟩ => ?_
    refine ⟨congrArg (Stmt.funDecl name params) same, ?_⟩
    exact declared.trans (.scope declared.describes binds traced)
  | .ret _ _, _, _, _, proper, describes => resolve_traced_ret proper describes

theorem resolveAll_traced : ∀ (stmts : List Stmt) {before : List Mark} {scopes : List Scope}
    {functions : List Bool}, AllProper stmts → Describes before scopes functions none →
    (resolveAll scopes (functions.any id) stmts).Answers fun result uses errors =>
      eraseAll result.1 = eraseAll stmts ∧
        Traced before (marksIn result.1) scopes functions result.2 uses errors
  | [], _, _, _, _, describes => answers_pure ⟨rfl, .nil describes⟩
  | first :: others, _, _, _, proper, describes =>
    (first.resolve_traced proper.1 describes).bind fun _ _ _ ⟨same, traced⟩ =>
      (resolveAll_traced others proper.2 traced.describes).map fun _ _ _ ⟨also, rest⟩ =>
        ⟨congrArg₂ List.cons same also, traced.trans rest⟩

end

end Stmt

/-- The statements of any readings are resolved to the same trees with distances. The uses are
recorded in order, each that has a distance once, and a use has the distance of the nearest
scope that declares its name before it. One report is made for each read of a local variable
in its own initializer and for each return outside all functions, in order, and no other. No
scope is left behind, so what follows is resolved as at the beginning. -/
theorem resolveProgram_explained {statements : List Stmt}
    (parsed : ∀ stmt ∈ statements, ∃ tokens, stmt ∈ (Program.ofTokens tokens).statements) :
    ∃ resolved uses errors, resolveProgram statements = .ok resolved uses errors ∧
      Stmt.resolveAll [] false statements = .ok (resolved, []) uses errors ∧
      Stmt.eraseAll resolved = statements ∧
      uses = (Stmt.marksIn resolved).filterMap Mark.recorded? ∧
      (∀ before assigned name distance own after,
        Stmt.marksIn resolved = before ++ .use assigned name distance own :: after →
        ∀ scopes, distance = some scopes ↔ Nearest before name.lexeme scopes) ∧
      Reported [] (Stmt.marksIn resolved) (errors.map ScopeError.report) ∧
      ∀ later more scopes usesLater errorsLater,
        Stmt.resolveAll [] false later = .ok (more, scopes) usesLater errorsLater →
        Stmt.resolveAll [] false (statements ++ later) =
          .ok (resolved ++ more, scopes) (uses ++ usesLater) (errors ++ errorsLater) := by
  -- Only trees of parsed texts are built from tokens; they have the shape that resolving needs.
  have built : Stmt.AllBuilt (fun _ => True) statements := by
    refine Stmt.allBuilt_of_forall fun stmt member => ?_
    obtain ⟨tokens, inside⟩ := parsed stmt member
    exact Stmt.built_of_mem (Program.built_ofTokens fun _ _ => trivial) stmt inside
  obtain ⟨proper, plain⟩ := Stmt.plainAll_of_built statements built
  obtain ⟨⟨resolved, after⟩, uses, errors, resolves, same, traced⟩ :=
    Stmt.resolveAll_traced statements proper .empty
  -- Behind the program all scopes are left again.
  obtain rfl : after = [] := List.eq_nil_of_length_eq_zero traced.kept.length
  obtain ⟨recorded, addressed, reported⟩ := traced.explained
  have whole : resolveProgram statements = .ok resolved uses errors := by
    rw [← List.append_nil uses, ← List.append_nil errors]
    exact Resolution.bind_ok resolves rfl
  refine ⟨resolved, uses, errors, whole, resolves, same.trans plain, recorded, ?_, reported, ?_⟩
  · exact addressed
  -- More statements are resolved in the scopes that these leave, which are none.
  · intro later more scopes usesLater errorsLater also
    exact Stmt.resolveAll_append_ok also statements resolves

/-- A block with a variable that is read in its own initializer, and a return behind it. -/
def strayReturn : List Token :=
  [⟨.leftBrace, "\x7b", none, 1⟩, ⟨.varWord, "var", none, 1⟩, ⟨.identifier, "a", none, 1⟩,
    ⟨.equal, "=", none, 1⟩, ⟨.identifier, "a", none, 1⟩, ⟨.semicolon, ";", none, 1⟩,
    ⟨.rightBrace, "\x7d", none, 1⟩, ⟨.returnWord, "return", none, 2⟩, ⟨.semicolon, ";", none, 2⟩]

/-- Both are reported, and the read has a distance all the same. -/
theorem resolveProgram_explained_strayReturn :
    ∃ resolved uses errors,
      resolveProgram (Program.ofTokens strayReturn).statements = .ok resolved uses errors ∧
      uses.map (·.distance) = [0] ∧
      Reported [] (Stmt.marksIn resolved)
        [.static 1 (.atLexeme "a") "Can't read local variable in its own initializer.",
          .static 2 (.atLexeme "return") "Can't return from top-level code."] := by
  obtain ⟨resolved, uses, errors, whole, _, _, _, _, reported, _⟩ :=
    @resolveProgram_explained (Program.ofTokens strayReturn).statements
      fun stmt member => ⟨strayReturn, member⟩
  have computed : resolveProgram (Program.ofTokens strayReturn).statements =
      .ok _ [⟨false, ⟨.identifier, "a", none, 1⟩, 0⟩]
        [⟨⟨.identifier, "a", none, 1⟩, .ownInitializer⟩,
          ⟨⟨.returnWord, "return", none, 2⟩, .topLevelReturn⟩] := rfl
  rw [computed] at whole
  cases whole
  exact ⟨_, _, _, computed, rfl, reported⟩

end Lox
