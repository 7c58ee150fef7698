import Lox.Proofs.Lines.Labels

/-! Running a program that stands on other lines, behind what was printed before.

Neither lines nor printed texts decide anything, so each step does the same as before,
and its failures are on the other lines.
-/

set_option autoImplicit false

namespace Lox

variable {lines : Int → Int} {before : Array String}

/-- A machine whose trees stand on other lines, with something printed before. -/
def Machine.retell (lines : Int → Int) (before : Array String) (machine : Machine) : Machine :=
  { machine with
    store := machine.store.map (ValueIn.relabel lines)
    printed := before ++ machine.printed }

def CompletionIn.relabel {ε : Type} (lines : Int → Int) :
    CompletionIn (ValueIn ε) → CompletionIn (ValueIn ε)
  | .normal => .normal
  | .returned value => .returned (value.relabel lines)

theorem CompletionIn.value_relabel {ε : Type} (completion : CompletionIn (ValueIn ε)) :
    (completion.relabel lines).value = completion.value.relabel lines := by
  cases completion <;> rfl

namespace Machine

variable (machine : Machine)

theorem retell_define (name : String) (value : Value) :
    (machine.define name value).retell lines before =
      (machine.retell lines before).define name (value.relabel lines) := by
  simp only [retell, define, Store.map_put]

theorem retell_enter (parent : Nat) :
    (machine.enter parent).retell lines before = (machine.retell lines before).enter parent := by
  simp only [retell, enter, Store.map_add, Store.next_map]

theorem defineAll_relabel (params : List Token) (arguments : List Value) :
    machine.defineAll (params.map (Token.relabel lines)) arguments =
      machine.defineAll params arguments := by
  unfold defineAll
  induction params generalizing machine arguments with
  | nil => rfl
  | cons param params ih =>
    cases arguments with
    | nil => rfl
    | cons argument arguments =>
      simp only [List.map_cons, List.zip_cons_cons, List.foldl_cons, ih, Token.relabel]

theorem retell_enterCall (function : Closure) (arguments : List Value) :
    (machine.enterCall function arguments).retell lines before =
      (machine.retell lines before).enterCall (function.relabel lines)
        (arguments.map (ValueIn.relabel lines)) := by
  have entered (depth : Nat) :
      { machine.enter function.env with depth := depth }.retell lines before =
        { (machine.retell lines before).enter function.env with depth := depth } := by
    simp only [retell, enter, Store.map_add, Store.next_map]
  unfold enterCall
  rw [defineAll_of_define _ (retell_define), entered]
  simp only [ClosureIn.relabel, defineAll_relabel]
  rfl

theorem retell_defineClosure (name : Token) (params : List Token) (body : List Stmt) :
    (machine.defineClosure name params body).retell lines before =
      (machine.retell lines before).defineClosure (name.relabel lines)
        (params.map (Token.relabel lines)) (Stmt.relabelAll lines body) := by
  simp only [retell, defineClosure, define, Store.map_put]
  rfl

theorem retell_replace (found : Nat) (name : String) (value : Value) :
    (machine.replace found name value).retell lines before =
      (machine.retell lines before).replace found name (value.relabel lines) := by
  simp only [retell, replace, Store.map_put]

theorem retell_print (line : String) :
    (machine.print line).retell lines before = (machine.retell lines before).print line := by
  simp only [retell, print, Array.append_push]

def relabelResult {α β : Type} (lines : Int → Int) (values : α → β) :
    Except Failure α → Except Failure β
  | .ok value => .ok (values value)
  | .error failure => .error (failure.relabel lines)

theorem read_retell (lookup : Lookup) (name : Token) (distance : Option Nat) :
    (machine.retell lines before).read lookup (name.relabel lines) distance =
      relabelResult lines (ValueIn.relabel lines) (machine.read lookup name distance) := by
  cases distance with
  | none =>
    have search : (machine.retell lines before).store.get?
        ((machine.retell lines before).searchFrame lookup) name.lexeme =
          (machine.store.get? (machine.searchFrame lookup) name.lexeme).map
            (ValueIn.relabel lines) :=
      Store.get?_map
    simp only [read, Token.relabel, search]
    cases machine.store.get? (machine.searchFrame lookup) name.lexeme <;> rfl
  | some distance =>
    have walk : (machine.retell lines before).store.getAt (machine.retell lines before).frame
        distance name.lexeme =
          (machine.store.getAt machine.frame distance name.lexeme).map (ValueIn.relabel lines) :=
      Store.getAt_map distance
    simp only [read, Token.relabel, walk]
    cases machine.store.getAt machine.frame distance name.lexeme <;> rfl

theorem locate_retell (lookup : Lookup) (name : Token) (distance : Option Nat) :
    (machine.retell lines before).locate lookup (name.relabel lines) distance =
      relabelResult lines id (machine.locate lookup name distance) := by
  cases distance with
  | none =>
    have search : (machine.retell lines before).store.holder?
        ((machine.retell lines before).searchFrame lookup) name.lexeme =
          machine.store.holder? (machine.searchFrame lookup) name.lexeme :=
      Store.holder?_map
    simp only [locate, Token.relabel, search]
    cases machine.store.holder? (machine.searchFrame lookup) name.lexeme <;> rfl
  | some distance =>
    have walk : (machine.retell lines before).store.locate (machine.retell lines before).frame
        distance name.lexeme = machine.store.locate machine.frame distance name.lexeme :=
      Store.locate_map distance
    simp only [locate, Token.relabel, walk]
    cases machine.store.locate machine.frame distance name.lexeme <;> rfl

end Machine

@[simp] theorem ValueIn.face_relabel {ε : Type} (value : ValueIn ε) :
    (value.relabel lines).face = value.face := by
  cases value <;> simp [relabel, face, ClosureIn.relabel, Token.relabel]

namespace Operator

variable {ε : Type}

theorem Answers.relabel {operator : Token} {result second : Except Failure (ValueIn ε)}
    (answers : Answers operator (operator.relabel lines) result second) :
    second = Machine.relabelResult lines (ValueIn.relabel lines) result := by
  cases answers <;> rfl

theorem unary_relabel (operator : Token) (value : ValueIn ε) :
    unary (operator.relabel lines) (value.relabel lines) =
      Machine.relabelResult lines (ValueIn.relabel lines) (unary operator value) := by
  apply Answers.relabel
  exact unary_answers rfl rfl value.face_relabel

theorem binary_relabel (operator : Token) (left right : ValueIn ε) :
    binary (operator.relabel lines) (left.relabel lines) (right.relabel lines) =
      Machine.relabelResult lines (ValueIn.relabel lines) (binary operator left right) := by
  apply Answers.relabel
  exact binary_answers rfl rfl left.face_relabel right.face_relabel

theorem decides_relabel (operator : Token) (value : ValueIn ε) :
    decides (operator.relabel lines) (value.relabel lines) = decides operator value :=
  decides_of_face rfl value.face_relabel

end Operator

namespace OutcomeIn

variable {α β γ δ : Type} {values : α → β}

def retell (outcome : Outcome α) (values : α → β) (lines : Int → Int) (before : Array String) :
    Outcome β :=
  match outcome with
  | .done value machine => .done (values value) (machine.retell lines before)
  | .failed failure machine => .failed (failure.relabel lines) (machine.retell lines before)
  | .cut machine => .cut (machine.retell lines before)

theorem retell_bind {outcome : Outcome α} {other : Outcome β} {next : α → Machine → Outcome γ}
    {otherNext : β → Machine → Outcome δ} {finally_ : γ → δ}
    (same : outcome.retell values lines before = other)
    (goesOn : ∀ value machine, (next value machine).retell finally_ lines before =
      otherNext (values value) (machine.retell lines before)) :
    (outcome.bind next).retell finally_ lines before = other.bind otherNext := by
  subst same
  cases outcome with
  | done value state => exact goesOn value state
  | failed failure state => rfl
  | exhausted => rfl

theorem retell_returnTo {outcome : Outcome α} {other : Outcome β} {frame depth : Nat}
    (same : outcome.retell values lines before = other) :
    (outcome.mapState (·.returnTo frame depth)).retell values lines before =
      other.mapState (·.returnTo frame depth) := by
  subst same
  cases outcome <;> rfl

theorem retell_ofExcept (result : Except Failure α) (machine : Machine) :
    (ofExcept result machine).retell values lines before =
      ofExcept (Machine.relabelResult lines values result) (machine.retell lines before) := by
  cases result <;> rfl

end OutcomeIn

structure RetellsWith (rules : Rules) (lines : Int → Int) (before : Array String) (fuel : Nat) :
    Prop where
  evaluate : ∀ expr machine, (evaluate rules fuel expr machine).retell (ValueIn.relabel lines)
      lines before =
    evaluate rules fuel (expr.relabel lines) (machine.retell lines before)
  evaluateAll : ∀ exprs machine, (evaluateAll rules fuel exprs machine).retell
      (List.map (ValueIn.relabel lines)) lines before =
    evaluateAll rules fuel (Expr.relabelAll lines exprs) (machine.retell lines before)
  call : ∀ callee arguments line machine, (call rules fuel callee arguments line machine).retell
      (ValueIn.relabel lines) lines before =
    call rules fuel (callee.relabel lines) (arguments.map (ValueIn.relabel lines)) (lines line)
      (machine.retell lines before)
  execute : ∀ stmt machine, (execute rules fuel stmt machine).retell (CompletionIn.relabel lines)
      lines before =
    execute rules fuel (stmt.relabel lines) (machine.retell lines before)
  executeAll : ∀ stmts machine, (executeAll rules fuel stmts machine).retell
      (CompletionIn.relabel lines) lines before =
    executeAll rules fuel (Stmt.relabelAll lines stmts) (machine.retell lines before)
  executeLoop : ∀ condition body machine, (executeLoop rules fuel condition body machine).retell
      (CompletionIn.relabel lines) lines before =
    executeLoop rules fuel (condition.relabel lines) (body.relabel lines)
      (machine.retell lines before)

namespace RetellsWith

variable {rules : Rules} {fuel : Nat}

theorem evaluate_succ (ih : RetellsWith rules lines before fuel) (expr : Expr) (machine : Machine) :
    (Lox.evaluate rules (fuel + 1) expr machine).retell (ValueIn.relabel lines) lines before =
      Lox.evaluate rules (fuel + 1) (expr.relabel lines) (machine.retell lines before) := by
  cases expr with
  | literal value => rfl
  | grouping inner => exact ih.evaluate inner machine
  | unary operator operand =>
    apply OutcomeIn.retell_bind (ih.evaluate operand machine)
    intro value after
    rw [OutcomeIn.retell_ofExcept, Operator.unary_relabel]
  | binary left operator right =>
    apply OutcomeIn.retell_bind (ih.evaluate left machine)
    intro first middle
    apply OutcomeIn.retell_bind (ih.evaluate right middle)
    intro second after
    rw [OutcomeIn.retell_ofExcept, Operator.binary_relabel]
  | logical left operator right =>
    apply OutcomeIn.retell_bind (ih.evaluate left machine)
    intro first middle
    rw [Operator.decides_relabel]
    split
    · rfl
    · exact ih.evaluate right middle
  | reference name distance =>
    rw [Expr.relabel, Lox.evaluate, Lox.evaluate, OutcomeIn.retell_ofExcept, Machine.read_retell]
  | assign name value distance =>
    apply OutcomeIn.retell_bind (ih.evaluate value machine)
    intro result after
    -- Where a name is found does not depend on lines.
    rw [Machine.locate_retell]
    cases after.locate rules.lookup name distance with
    | ok found => simp only [OutcomeIn.retell, Machine.relabelResult, Machine.retell_replace]; rfl
    | error failure => rfl
  | call callee paren arguments =>
    apply OutcomeIn.retell_bind (ih.evaluate callee machine)
    intro function middle
    apply OutcomeIn.retell_bind (ih.evaluateAll arguments middle)
    exact fun values after => ih.call function values paren.line after
  | misplaced node => rfl

theorem evaluateAll_succ (ih : RetellsWith rules lines before fuel) (exprs : List Expr)
    (machine : Machine) :
    (Lox.evaluateAll rules (fuel + 1) exprs machine).retell (List.map (ValueIn.relabel lines))
        lines before =
      Lox.evaluateAll rules (fuel + 1) (Expr.relabelAll lines exprs)
        (machine.retell lines before) := by
  cases exprs with
  | nil => rfl
  | cons first others =>
    apply OutcomeIn.retell_bind (ih.evaluate first machine)
    intro value middle
    apply OutcomeIn.retell_bind (ih.evaluateAll others middle)
    exact fun values after => rfl

theorem call_succ (ih : RetellsWith rules lines before fuel) (callee : Value)
    (arguments : List Value) (line : Int) (machine : Machine) :
    (Lox.call rules (fuel + 1) callee arguments line machine).retell (ValueIn.relabel lines)
        lines before =
      Lox.call rules (fuel + 1) (callee.relabel lines) (arguments.map (ValueIn.relabel lines))
        (lines line) (machine.retell lines before) := by
  -- A call is refused for the same cause on any lines.
  have asks : rules.refusal? (callee.relabel lines) (arguments.map (ValueIn.relabel lines)).length
      (machine.retell lines before).depth = rules.refusal? callee arguments.length machine.depth := by
    rw [rules.refusal?_of_face callee.face_relabel, List.length_map]
    rfl
  cases refuses : rules.refusal? callee arguments.length machine.depth with
  | some cause =>
    rw [call_of_refused refuses, call_of_refused (asks.trans refuses)]
    rfl
  | none =>
    have accepts := asks.trans refuses
    cases callee with
    | closure function =>
      -- Only the line of the call itself is told anew; the body has its own.
      have body := ih.executeAll function.body (machine.enterCall function arguments)
      rw [Machine.retell_enterCall] at body
      simp only [ValueIn.relabel] at accepts ⊢
      rw [call_closure rules fuel line refuses, call_closure rules fuel (lines line) accepts]
      apply OutcomeIn.retell_returnTo
      apply OutcomeIn.retell_bind body
      intro completion after
      simp only [OutcomeIn.retell, CompletionIn.value_relabel]
    | native function =>
      cases function
      simp only [ValueIn.relabel] at accepts ⊢
      rw [Lox.call, Lox.call, refuses, accepts]
      rfl
    | literal value => cases refuses

theorem execute_succ (ih : RetellsWith rules lines before fuel) (stmt : Stmt) (machine : Machine) :
    (Lox.execute rules (fuel + 1) stmt machine).retell (CompletionIn.relabel lines) lines before =
      Lox.execute rules (fuel + 1) (stmt.relabel lines) (machine.retell lines before) := by
  cases stmt with
  | expression inner =>
    apply OutcomeIn.retell_bind (ih.evaluate inner machine)
    exact fun value after => rfl
  | print inner =>
    apply OutcomeIn.retell_bind (ih.evaluate inner machine)
    intro value after
    -- What is shown does not depend on lines.
    rw [ValueIn.display_of_face value.face_relabel, ← Machine.retell_print]
    rfl
  | varDecl name initializer =>
    cases initializer with
    | none => simp only [Lox.execute, Stmt.relabel, OutcomeIn.retell, Machine.retell_define]; rfl
    | some initializer =>
      apply OutcomeIn.retell_bind (ih.evaluate initializer machine)
      intro value after
      simp only [OutcomeIn.retell, Machine.retell_define]
      rfl
  | block body =>
    have inside := ih.executeAll body (machine.enter machine.frame)
    rw [Machine.retell_enter] at inside
    rw [execute_block, Stmt.relabel, execute_block]
    exact OutcomeIn.retell_returnTo inside
  | conditional condition yes no =>
    rw [Stmt.relabel_conditional]
    apply OutcomeIn.retell_bind (ih.evaluate condition machine)
    intro value middle
    rw [ValueIn.truthy_of_face value.face_relabel]
    split
    · exact ih.execute yes middle
    · cases no with
      | none => rfl
      | some no => exact ih.execute no middle
  | loop condition body => exact ih.executeLoop condition body machine
  | funDecl name params body =>
    simp only [Lox.execute, Stmt.relabel, OutcomeIn.retell, Machine.retell_defineClosure]
    rfl
  | ret keyword value =>
    cases value with
    | none => rfl
    | some value =>
      apply OutcomeIn.retell_bind (ih.evaluate value machine)
      exact fun result after => rfl
  | misplaced node => rfl

theorem executeAll_succ (ih : RetellsWith rules lines before fuel) (stmts : List Stmt)
    (machine : Machine) :
    (Lox.executeAll rules (fuel + 1) stmts machine).retell (CompletionIn.relabel lines)
        lines before =
      Lox.executeAll rules (fuel + 1) (Stmt.relabelAll lines stmts)
        (machine.retell lines before) := by
  cases stmts with
  | nil => rfl
  | cons first others =>
    apply OutcomeIn.retell_bind (ih.execute first machine)
    intro completion middle
    cases completion with
    | normal => exact ih.executeAll others middle
    | returned value => rfl

theorem executeLoop_succ (ih : RetellsWith rules lines before fuel) (condition : Expr) (body : Stmt)
    (machine : Machine) :
    (Lox.executeLoop rules (fuel + 1) condition body machine).retell (CompletionIn.relabel lines)
        lines before =
      Lox.executeLoop rules (fuel + 1) (condition.relabel lines) (body.relabel lines)
        (machine.retell lines before) := by
  apply OutcomeIn.retell_bind (ih.evaluate condition machine)
  intro value middle
  rw [ValueIn.truthy_of_face value.face_relabel]
  split
  · apply OutcomeIn.retell_bind (ih.execute body middle)
    intro completion later
    cases completion with
    | normal => exact ih.executeLoop condition body later
    | returned value => rfl
  · rfl

end RetellsWith

theorem retellsWith (rules : Rules) (lines : Int → Int) (before : Array String) (fuel : Nat) :
    RetellsWith rules lines before fuel := by
  induction fuel with
  | zero => constructor <;> intros <;> rfl
  | succ fuel ih =>
    exact ⟨ih.evaluate_succ, ih.evaluateAll_succ, ih.call_succ, ih.execute_succ, ih.executeAll_succ,
      ih.executeLoop_succ⟩

theorem interpret_retell (rules : Rules) (fuel : Nat) (statements : List Stmt) (machine : Machine) :
    (interpret rules fuel statements machine).retell id lines before =
      interpret rules fuel (Stmt.relabelAll lines statements) (machine.retell lines before) := by
  apply OutcomeIn.retell_returnTo
  apply OutcomeIn.retell_bind ((retellsWith rules lines before fuel).executeAll statements machine)
  exact fun completion after => rfl

end Lox
