import Lox.Proofs.Grammar.Program
import Lox.Proofs.Lines.Labels

/-! The grammar does not look at lines, and declarations may follow any others. -/

set_option autoImplicit false

namespace Lox

variable {lines : Int → Int}

@[simp] theorem Expr.length_relabelAll (exprs : List Expr) :
    (relabelAll lines exprs).length = exprs.length := by
  induction exprs with
  | nil => rfl
  | cons first others ih => simp [relabelAll, ih]

namespace Grammar

abbrev onLines (lines : Int → Int) (tokens : List Token) : List Token :=
  tokens.map (Token.relabel lines)

theorem Level.combine_relabel (level : Level) (left right : Expr) (operator : Token) :
    (level.combine left operator right).relabel lines =
      level.combine (left.relabel lines) (operator.relabel lines) (right.relabel lines) := by
  cases level <;> rfl

theorem Phrase.relabel (lines : Int → Int) {level : Level} {tokens : List Token} {expr : Expr}
    (derived : Phrase level tokens expr) :
    Phrase level (onLines lines tokens) (expr.relabel lines) := by
  -- By recursion on the derivation, with one motive for each of the three mutual relations.
  refine @Phrase.rec
    (fun level tokens expr _ => Phrase level (onLines lines tokens) (expr.relabel lines))
    (fun tokens exprs _ =>
      Listed (Phrase .assignment) (onLines lines tokens) (Expr.relabelAll lines exprs))
    (fun tokens exprs _ =>
      Separated (Phrase .assignment) (onLines lines tokens) (Expr.relabelAll lines exprs))
    ?constant ?name ?group ?call ?unary ?binary ?assign ?tighter ?none ?some ?last ?more _ _ _ derived
  case constant => exact fun same => .constant same
  case name => exact fun kind => .name kind
  case group =>
    intro opening closing tokens inner opens _ closes relabelled
    have whole := @Phrase.group (opening.relabel lines) (closing.relabel lines) _ _ opens relabelled
      closes
    simpa [onLines, Expr.relabel] using whole
  case call =>
    intro opening closing tokens inside callee arguments _ opens _ closes relabelled relabelledAll
    have whole := @Phrase.call (opening.relabel lines) (closing.relabel lines) _ _ _ _ relabelled opens
      relabelledAll closes
    simpa [onLines, Expr.relabel] using whole
  case unary =>
    intro operator tokens operand isOperator _ relabelled
    exact @Phrase.unary (operator.relabel lines) _ _ isOperator relabelled
  case binary =>
    intro level inner operator before behind left right tighter isOperator _ _ first second
    have whole := @Phrase.binary level inner (operator.relabel lines) _ _ _ _ tighter isOperator first
      second
    -- The tree takes the line of its operator along.
    rw [Level.combine_relabel]
    simpa [onLines] using whole
  case assign =>
    intro name equals tokens value isName isEquals _ relabelled
    exact @Phrase.assign (name.relabel lines) (equals.relabel lines) _ _ isName isEquals relabelled
  case tighter => exact fun tighter _ relabelled => .tighter tighter relabelled
  case none => exact .none
  case some =>
    intro tokens items _ room relabelled
    exact .some relabelled (by rwa [Expr.length_relabelAll])
  case last => exact fun _ relabelled => .last relabelled
  case more =>
    intro comma tokens others item items _ isComma _ relabelled relabelledOthers
    have whole := @Separated.more _ _ (comma.relabel lines) _ _ _ _ relabelled isComma
      relabelledOthers
    simpa [onLines, Expr.relabelAll] using whole

theorem Clause.relabel (lines : Int → Int) {tokens : List Token} {clause : Option Expr}
    (derived : Clause tokens clause) :
    Clause (onLines lines tokens) (clause.map (Expr.relabel lines)) := by
  cases derived with
  | absent => exact .absent
  | present derived => exact .present (derived.relabel lines)

theorem Closed.relabel (lines : Int → Int) {tokens : List Token} {expr : Expr}
    (derived : Closed tokens expr) :
    Closed (onLines lines tokens) (expr.relabel lines) := by
  obtain ⟨derived, isSemicolon⟩ := derived
  rename_i semicolon tokens
  have whole := @Closed.intro (semicolon.relabel lines) _ _ (derived.relabel lines) isSemicolon
  simpa [onLines] using whole

theorem Variable.relabel (lines : Int → Int) {tokens : List Token} {stmt : Stmt}
    (derived : Variable tokens stmt) :
    Variable (onLines lines tokens) (stmt.relabel lines) := by
  cases derived with
  | @bare word name semicolon isWord isName isSemicolon =>
    exact @Variable.bare (word.relabel lines) (name.relabel lines) (semicolon.relabel lines) isWord
      isName isSemicolon
  | @initialized word name equals tokens value isWord isName isEquals closed =>
    exact @Variable.initialized (word.relabel lines) (name.relabel lines) (equals.relabel lines) _ _
      isWord isName isEquals (closed.relabel lines)

theorem Initializer.relabel (lines : Int → Int) {tokens : List Token} {initializer : Option Stmt}
    (derived : Initializer tokens initializer) :
    Initializer (onLines lines tokens) (initializer.map (Stmt.relabel lines)) := by
  cases derived with
  | @absent semicolon isSemicolon =>
    exact @Initializer.absent (semicolon.relabel lines) isSemicolon
  | «variable» derived => exact .variable (derived.relabel lines)
  | expression closed => exact .expression (closed.relabel lines)

theorem names_relabel (lines : Int → Int) {tokens params : List Token} (derived : Listed Name tokens params) :
    Listed Name (onLines lines tokens) (onLines lines params) := by
  cases derived with
  | none => exact .none
  | some separated room =>
    refine .some ?_ (by rwa [List.length_map])
    clear room
    induction separated with
    | last named =>
      obtain ⟨kind⟩ := named
      exact .last (.intro kind)
    | @more comma tokens others item items named isComma _ ih =>
      obtain ⟨kind⟩ := named
      have named : Name [item.relabel lines] (item.relabel lines) := .intro kind
      exact @Separated.more _ _ (comma.relabel lines) _ _ _ _ named isComma ih

theorem relabel_withIncrement (body : Stmt) (increment : Option Expr) :
    (withIncrement body increment).relabel lines =
      withIncrement (body.relabel lines) (increment.map (Expr.relabel lines)) := by
  cases increment <;> rfl

theorem relabel_withInitializer (loop : Stmt) (initializer : Option Stmt) :
    (withInitializer loop initializer).relabel lines =
      withInitializer (loop.relabel lines) (initializer.map (Stmt.relabel lines)) := by
  cases initializer <;> rfl

theorem relabel_condition (condition : Option Expr) :
    (condition.getD (.literal (.bool true))).relabel lines =
      (condition.map (Expr.relabel lines)).getD (.literal (.bool true)) := by
  cases condition <;> rfl

mutual

theorem Statement.relabel (lines : Int → Int) : ∀ {dangling : Bool} {tokens : List Token}
    {stmt : Stmt}, Statement dangling tokens stmt →
      Statement dangling (onLines lines tokens) (stmt.relabel lines)
  | _, _, _, .expression closed => .expression (closed.relabel lines)
  | _, _, _, @Statement.print word _ _ isWord closed =>
    @Statement.print (word.relabel lines) _ _ isWord (closed.relabel lines)
  | _, _, _, @Statement.ret word semicolon _ _ isWord clause isSemicolon => by
    have whole := @Statement.ret (word.relabel lines) (semicolon.relabel lines) _ _ isWord
      (clause.relabel lines) isSemicolon
    simpa [onLines, Stmt.relabel] using whole
  | _, _, _, @Statement.block opening closing _ _ opens body closes => by
    have whole := @Statement.block (opening.relabel lines) (closing.relabel lines) _ _ opens
      (body.relabel lines) closes
    simpa [onLines, Stmt.relabel] using whole
  | _, _, _, @Statement.loop word opening closing _ _ _ _ _ isWord opens test closes body => by
    have whole := @Statement.loop (word.relabel lines) (opening.relabel lines) (closing.relabel lines)
      _ _ _ _ _ isWord opens (test.relabel lines) closes (body.relabel lines)
    simpa [onLines, Stmt.relabel] using whole
  | _, _, _, @Statement.forLoop word opening semicolon closing _ _ _ _ _ _ _ _ _ isWord opens first
      test isSemicolon step closes body => by
    have whole := @Statement.forLoop (word.relabel lines) (opening.relabel lines)
      (semicolon.relabel lines) (closing.relabel lines) _ _ _ _ _ _ _ _ _ isWord opens
      (first.relabel lines) (test.relabel lines) isSemicolon (step.relabel lines) closes
      (body.relabel lines)
    rw [relabel_withInitializer, Stmt.relabel, relabel_condition, relabel_withIncrement]
    simpa [onLines] using whole
  | _, _, _, @Statement.ifOnly word opening closing _ _ _ _ _ isWord opens test closes yes => by
    have whole := @Statement.ifOnly (word.relabel lines) (opening.relabel lines)
      (closing.relabel lines) _ _ _ _ _ isWord opens (test.relabel lines) closes (yes.relabel lines)
    simpa [onLines, Stmt.relabel] using whole
  | _, _, _, @Statement.ifElse word opening closing otherwise _ _ _ _ _ _ _ isWord opens test closes
      yes isElse no => by
    have whole := @Statement.ifElse (word.relabel lines) (opening.relabel lines)
      (closing.relabel lines) (otherwise.relabel lines) _ _ _ _ _ _ _ isWord opens
      (test.relabel lines) closes (yes.relabel lines) isElse (no.relabel lines)
    simpa [onLines, Stmt.relabel] using whole

theorem Declaration.relabel (lines : Int → Int) : ∀ {tokens : List Token} {stmt : Stmt},
    Declaration tokens stmt → Declaration (onLines lines tokens) (stmt.relabel lines)
  | _, _, @Declaration.function word name opening closing start finish _ _ _ _ isWord isName opens
      params closes starts body ends => by
    have whole := @Declaration.function (word.relabel lines) (name.relabel lines)
      (opening.relabel lines) (closing.relabel lines) (start.relabel lines) (finish.relabel lines)
      _ _ _ _ isWord isName opens (names_relabel lines params) closes starts (body.relabel lines) ends
    simpa [onLines, Stmt.relabel] using whole
  | _, _, .variable derived => .variable (derived.relabel lines)
  | _, _, .statement derived => .statement (derived.relabel lines)

theorem Declarations.relabel (lines : Int → Int) : ∀ {tokens : List Token} {stmts : List Stmt},
    Declarations tokens stmts → Declarations (onLines lines tokens) (Stmt.relabelAll lines stmts)
  | _, _, .none => .none
  | _, _, .more first others => by
    rw [onLines, List.map_append]
    exact .more (first.relabel lines) (others.relabel lines)

end

theorem Declarations.append {others : List Token} {more : List Stmt}
    (second : Declarations others more) :
    ∀ {tokens : List Token} {stmts : List Stmt}, Declarations tokens stmts →
      Declarations (tokens ++ others) (stmts ++ more)
  | _, _, .none => second
  | _, _, .more first rest => by
    rw [List.append_assoc]
    exact .more first (append second rest)

end Grammar

/-- Two programs without errors, the second on other lines, make one. -/
theorem Program.ofTokens_append {tokens others : List Token} {statements more : List Stmt}
    (lines : Int → Int) (first : ofTokens tokens = ⟨statements, []⟩)
    (second : ofTokens others = ⟨more, []⟩) :
    ofTokens (tokens ++ others.map (Token.relabel lines)) =
      ⟨statements ++ Stmt.relabelAll lines more, []⟩ := by
  apply ofTokens_eq_of_derives
  exact .append ((derives_of_ofTokens_eq second).relabel lines) (derives_of_ofTokens_eq first)

end Lox
