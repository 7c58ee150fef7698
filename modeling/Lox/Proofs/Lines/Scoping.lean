import Lox.Proofs.Lines.Grammar
import Lox.Proofs.Scoping.Accepted
import Lox.Proofs.Session.Runs
import Lox.Proofs.Tiling.Seam

/-! Resolving the names of two texts at once.

Scopes do not look at lines, and behind top-level statements there is no scope, so the names
of the second text are resolved as if it stood alone.
-/

set_option autoImplicit false

namespace Lox

variable {lines : Int → Int}

namespace Resolution

variable {α β γ δ : Type} {values : α → β}

def relabel (resolution : Resolution α) (values : α → β) (lines : Int → Int) : Resolution β :=
  match resolution with
  | .ok value uses errors =>
    .ok (values value) (uses.map fun use => { use with name := use.name.relabel lines })
      (errors.map fun error => { error with token := error.token.relabel lines })
  | .malformed shape errors =>
    .malformed shape (errors.map fun error => { error with token := error.token.relabel lines })

theorem relabel_bind {resolution : Resolution α} {other : Resolution β} {next : α → Resolution γ}
    {otherNext : β → Resolution δ} {finally_ : γ → δ}
    (same : resolution.relabel values lines = other)
    (goesOn : ∀ value, (next value).relabel finally_ lines = otherNext (values value)) :
    (resolution >>= next).relabel finally_ lines = other >>= otherNext := by
  subst same
  change Resolution.relabel (Resolution.bind _ _) _ _ = Resolution.bind _ _
  cases resolution with
  | malformed shape errors => rfl
  | ok value uses errors =>
    simp only [relabel, Resolution.bind, ← goesOn]
    cases next value <;> simp

theorem relabel_noteIf (condition : Bool) (token : Token) (cause : ScopeError.Cause) :
    (noteIf condition ⟨token, cause⟩).relabel id lines =
      noteIf condition ⟨token.relabel lines, cause⟩ := by
  cases condition <;> rfl

theorem relabel_useOf (scopes : List Scope) (assigned : Bool) (name : Token) :
    (useOf scopes assigned name).relabel id lines = useOf scopes assigned (name.relabel lines) := by
  have same : Scope.distance? scopes (name.relabel lines) = Scope.distance? scopes name := rfl
  unfold useOf
  rw [same]
  cases Scope.distance? scopes name <;> rfl

theorem clean?_relabel (resolution : Resolution α) :
    (resolution.relabel values lines).clean? = resolution.clean?.map values := by
  cases resolution with
  | malformed shape errors => rfl
  | ok value uses errors => cases errors <;> rfl

end Resolution

section
variable {scopes : List Scope}

mutual

theorem Expr.resolve_relabel : ∀ expr : Expr,
    (expr.resolve scopes).relabel (Expr.relabel lines) lines = (expr.relabel lines).resolve scopes
  | .literal _ | .misplaced _ => rfl
  | .grouping inner => Resolution.relabel_bind inner.resolve_relabel fun _ => rfl
  | .unary _ operand => Resolution.relabel_bind operand.resolve_relabel fun _ => rfl
  | .binary left _ right | .logical left _ right =>
    Resolution.relabel_bind left.resolve_relabel fun _ =>
      Resolution.relabel_bind right.resolve_relabel fun _ => rfl
  | .reference name _ =>
    Resolution.relabel_bind (Resolution.relabel_noteIf _ name _) fun _ =>
      Resolution.relabel_bind (Resolution.relabel_useOf scopes false name) fun _ => rfl
  | .assign name value _ =>
    Resolution.relabel_bind value.resolve_relabel fun _ =>
      Resolution.relabel_bind (Resolution.relabel_useOf scopes true name) fun _ => rfl
  | .call callee _ arguments =>
    Resolution.relabel_bind callee.resolve_relabel fun _ =>
      Resolution.relabel_bind (resolveAll_relabel arguments) fun _ => rfl

theorem Expr.resolveAll_relabel : ∀ exprs : List Expr,
    (resolveAll scopes exprs).relabel (relabelAll lines) lines =
      resolveAll scopes (relabelAll lines exprs)
  | [] => rfl
  | first :: others =>
    Resolution.relabel_bind first.resolve_relabel fun _ =>
      Resolution.relabel_bind (resolveAll_relabel others) fun _ => rfl

end

theorem Expr.resolveOption_relabel (expr : Option Expr) :
    (resolveOption scopes expr).relabel (Option.map (relabel lines)) lines =
      resolveOption scopes (expr.map (relabel lines)) := by
  cases expr with
  | none => rfl
  | some expr => exact Resolution.relabel_bind expr.resolve_relabel fun _ => rfl

end

theorem Scope.ofParams_relabel (params : List Token) :
    ofParams (params.map (Token.relabel lines)) = ofParams params := by
  unfold ofParams
  rw [List.foldl_map]
  rfl

namespace Stmt

mutual

theorem resolve_relabel : ∀ (stmt : Stmt) {scopes : List Scope} {inFunction : Bool},
    (stmt.resolve scopes inFunction).relabel (Prod.map (relabel lines) id) lines =
      (stmt.relabel lines).resolve scopes inFunction
  | .expression inner, _, _ | .print inner, _, _ =>
    Resolution.relabel_bind inner.resolve_relabel fun _ => rfl
  | .varDecl _ initializer, _, _ =>
    Resolution.relabel_bind (Expr.resolveOption_relabel initializer) fun _ => rfl
  | .block body, _, _ => Resolution.relabel_bind (resolveAll_relabel body) fun _ => rfl
  | .conditional condition yes none, _, _ =>
    Resolution.relabel_bind condition.resolve_relabel fun _ =>
      Resolution.relabel_bind yes.resolve_relabel fun _ => rfl
  | .conditional condition yes (some no), _, _ =>
    Resolution.relabel_bind condition.resolve_relabel fun _ =>
      Resolution.relabel_bind yes.resolve_relabel fun _ =>
        Resolution.relabel_bind no.resolve_relabel fun _ => rfl
  | .loop condition body, _, _ =>
    Resolution.relabel_bind condition.resolve_relabel fun _ =>
      Resolution.relabel_bind body.resolve_relabel fun _ => rfl
  | .funDecl name params body, scopes, _ => by
    have inside := @resolveAll_relabel body (Scope.ofParams params :: Scope.mark name true scopes) true
    rw [relabel, resolve, resolve, Scope.ofParams_relabel]
    exact Resolution.relabel_bind inside fun _ => rfl
  | .ret keyword value, _, _ =>
    Resolution.relabel_bind (Resolution.relabel_noteIf _ keyword _) fun _ =>
      Resolution.relabel_bind (Expr.resolveOption_relabel value) fun _ => rfl
  | .misplaced _, _, _ => rfl

theorem resolveAll_relabel : ∀ (stmts : List Stmt) {scopes : List Scope} {inFunction : Bool},
    (resolveAll scopes inFunction stmts).relabel (Prod.map (relabelAll lines) id) lines =
      resolveAll scopes inFunction (relabelAll lines stmts)
  | [], _, _ => rfl
  | first :: others, _, _ =>
    Resolution.relabel_bind first.resolve_relabel fun _ =>
      Resolution.relabel_bind (resolveAll_relabel others) fun _ => rfl

end

theorem resolveAll_leaves (stmts : List Stmt) : AllProper stmts → ∀ {inFunction : Bool},
    (resolveAll [] inFunction stmts).Gives fun result => result.2 = [] := by
  induction stmts with
  | nil => exact fun _ _ => Resolution.gives_pure rfl
  | cons first others ih =>
    intro proper inFunction
    have located : (first.resolve (Region.scopes [] none) inFunction).Gives (first.Locates []) :=
      first.resolve_locates proper.1
    refine located.bind ?_
    rintro ⟨resolved, scopes⟩ ⟨_, _, same⟩
    have outside : first.behind [] = [] := List.isEmpty_iff.mp (first.behind_isEmpty [])
    rw [outside] at same
    subst same
    exact (ih proper.2).bind fun more outside => Resolution.gives_pure outside

end Stmt

theorem Resolution.clean?_eq_some_iff {α : Type} {resolution : Resolution α} {value : α} :
    resolution.clean? = some value ↔ ∃ uses, resolution.Yields value uses := by
  constructor
  · intro clean
    unfold clean? at clean
    split at clean
    · cases clean
      exact ⟨_, rfl⟩
    · cases clean
  · rintro ⟨uses, yields⟩
    rw [yields]
    rfl

theorem resolveProgram_relabel (statements : List Stmt) :
    (resolveProgram statements).relabel (Stmt.relabelAll lines) lines =
      resolveProgram (Stmt.relabelAll lines statements) :=
  Resolution.relabel_bind (Stmt.resolveAll_relabel statements) fun _ => rfl

theorem resolveProgram_append {first second resolved more : List Stmt}
    (proper : Stmt.AllProper first) (clean : (resolveProgram first).clean? = some resolved)
    (also : (resolveProgram second).clean? = some more) :
    (resolveProgram (first ++ second)).clean? = some (resolved ++ more) := by
  obtain ⟨uses, yields⟩ := Resolution.clean?_eq_some_iff.mp clean
  obtain ⟨usesBehind, yieldsBehind⟩ := Resolution.clean?_eq_some_iff.mp also
  obtain ⟨⟨_, scopes⟩, here, _, yieldsHere, same, rfl⟩ := yields.exists_of_bind
  cases same
  obtain ⟨⟨_, behind⟩, there, _, yieldsThere, same, rfl⟩ := yieldsBehind.exists_of_bind
  cases same
  obtain rfl : scopes = [] := Stmt.resolveAll_leaves first proper _ _ yieldsHere
  exact Resolution.clean?_eq_some_iff.mpr
    ⟨_, Resolution.Yields.map (Stmt.resolveAll_append_ok yieldsThere first yieldsHere) rfl⟩

namespace Source

theorem parsed?_iff {text : List Char} {statements : List Stmt} :
    parsed? text = some statements ↔ (Token.Scan.ofText text).reports = [] ∧
      Program.ofTokens (Token.Scan.ofText text).tokens = ⟨statements, []⟩ := by
  have whole : (ofText text).reports = [] ↔ (Token.Scan.ofText text).reports = [] ∧
      (Program.ofTokens (Token.Scan.ofText text).tokens).errors = [] := by
    unfold reports
    rw [List.append_eq_nil_iff, List.map_eq_nil_iff]
    rfl
  unfold parsed?
  constructor
  · intro parsed
    split at parsed
    next clean =>
      cases parsed
      obtain ⟨lexical, grammatical⟩ := whole.mp clean
      exact ⟨lexical, by rw [← grammatical]; rfl⟩
    next => cases parsed
  · rintro ⟨clean, program⟩
    rw [if_pos (whole.mpr ⟨clean, by rw [program]⟩)]
    exact congrArg (fun program : Program => some program.statements) program

theorem parsed?_append {first second : List Char} {statements more : List Stmt}
    (parsed : parsed? first = some statements) (also : parsed? second = some more) :
    parsed? (first ++ '\n' :: second) =
      some (statements ++ Stmt.relabelAll (· + Token.newlines first) more) := by
  obtain ⟨clean, program⟩ := parsed?_iff.mp parsed
  obtain ⟨cleanSecond, programSecond⟩ := parsed?_iff.mp also
  obtain ⟨tokens, reports⟩ := Token.Scan.ofText_append clean cleanSecond
  refine parsed?_iff.mpr ⟨reports, ?_⟩
  rw [tokens]
  exact Program.ofTokens_append _ program programSecond

/-- Two texts without errors have none together, and their names mean the same. -/
theorem resolved?_append {first second : List Char} {resolved more : List Stmt}
    (accepted : resolved? first = some resolved) (also : resolved? second = some more) :
    resolved? (first ++ '\n' :: second) =
      some (resolved ++ Stmt.relabelAll (· + Token.newlines first) more) := by
  obtain ⟨statements, parsed, clean⟩ := Option.bind_eq_some_iff.mp accepted
  obtain ⟨others, parsedAlso, cleanAlso⟩ := Option.bind_eq_some_iff.mp also
  refine Option.bind_eq_some_iff.mpr ⟨_, parsed?_append parsed parsedAlso, ?_⟩
  apply resolveProgram_append (shape_of_parsed? parsed).1 clean
  rw [← resolveProgram_relabel, Resolution.clean?_relabel, cleanAlso]
  rfl

/-- Statements of a text without errors return only inside functions. -/
theorem returnsInside_of_resolved? {text : List Char} {resolved : List Stmt}
    (accepted : resolved? text = some resolved) : Stmt.AllReturnInside false resolved := by
  obtain ⟨statements, _, clean⟩ := Option.bind_eq_some_iff.mp accepted
  obtain ⟨uses, yields⟩ := Resolution.clean?_eq_some_iff.mp clean
  exact resolveProgram_returnsInside statements _ _ yields

end Source

end Lox
