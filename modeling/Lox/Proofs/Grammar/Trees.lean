import Lox.Proofs.Grammar.Program
import Lox.Proofs.Scoping.Shape

/-! The trees of the grammar have the shape of programs, and no distances. -/

set_option autoImplicit false

namespace Lox

def Expr.Parsed (expr : Expr) : Prop := expr.Proper ∧ expr.erase = expr

def Stmt.Parsed (stmt : Stmt) : Prop := stmt.Proper ∧ stmt.erase = stmt

theorem Expr.all_parsed {exprs : List Expr} (parsed : ∀ expr ∈ exprs, expr.Parsed) :
    AllProper exprs ∧ eraseAll exprs = exprs := by
  induction exprs with
  | nil => exact ⟨trivial, rfl⟩
  | cons first others ih =>
    obtain ⟨proper, plain⟩ := parsed first List.mem_cons_self
    obtain ⟨properOthers, plainOthers⟩ := ih fun expr member => parsed expr (.tail _ member)
    exact ⟨⟨proper, properOthers⟩, by rw [eraseAll, plain, plainOthers]⟩

namespace Grammar

theorem Level.combine_parsed {level : Level} {operator : Token} {left right : Expr}
    (isOperator : operator.kind ∈ level.operators) (parsedLeft : left.Parsed)
    (parsedRight : right.Parsed) : (level.combine left operator right).Parsed := by
  obtain ⟨properLeft, plainLeft⟩ := parsedLeft
  obtain ⟨properRight, plainRight⟩ := parsedRight
  cases level with
  | conjunction | disjunction =>
    exact ⟨⟨properLeft, properRight⟩, by simp only [combine, Expr.erase, plainLeft, plainRight]⟩
  | primary | call | unary | assignment => exact absurd isOperator List.not_mem_nil
  | factor | term | comparison | equality =>
    refine ⟨⟨properLeft, ?_, properRight⟩, by simp only [combine, Expr.erase, plainLeft, plainRight]⟩
    grind [operators, Operator.binaryKinds]

theorem Phrase.parsed {level : Level} {tokens : List Token} {expr : Expr}
    (derived : Phrase level tokens expr) : expr.Parsed := by
  -- The arguments of a call are derived through lists, which have motives of their own.
  refine @Phrase.rec (fun _ _ expr _ => expr.Parsed) (fun _ exprs _ => ∀ expr ∈ exprs, expr.Parsed)
    (fun _ exprs _ => ∀ expr ∈ exprs, expr.Parsed) ?constant ?name ?group ?call ?unary ?binary
    ?assign ?tighter ?none ?some ?last ?more _ _ _ derived
  case constant => exact fun _ => ⟨trivial, rfl⟩
  case name => exact fun _ => ⟨trivial, rfl⟩
  case group =>
    intro _ _ _ inner _ _ _ parsed
    exact ⟨parsed.1, by rw [Expr.erase, parsed.2]⟩
  case call =>
    intro _ _ _ _ callee arguments _ _ _ _ parsed parsedAll
    obtain ⟨proper, plain⟩ := Expr.all_parsed parsedAll
    exact ⟨⟨parsed.1, proper⟩, by rw [Expr.erase, parsed.2, plain]⟩
  case unary =>
    intro operator _ operand isOperator _ parsed
    exact ⟨⟨by simpa [Operator.unaryKinds] using isOperator, parsed.1⟩,
      by rw [Expr.erase, parsed.2]⟩
  case binary => exact fun _ isOperator _ _ => Level.combine_parsed isOperator
  case assign =>
    intro _ _ _ value _ _ _ parsed
    exact ⟨parsed.1, by rw [Expr.erase, parsed.2]⟩
  case tighter => exact fun _ _ parsed => parsed
  case none => simp
  case some => exact fun _ _ parsed => parsed
  case last => simp
  case more => exact fun _ _ _ parsed parsedOthers => List.forall_mem_cons.mpr ⟨parsed, parsedOthers⟩

theorem Clause.parsed {tokens : List Token} {clause : Option Expr} (derived : Clause tokens clause) :
    ∀ expr ∈ clause, expr.Parsed := by
  cases derived with
  | absent => simp
  | present derived => simpa using derived.parsed

theorem Variable.parsed {tokens : List Token} {stmt : Stmt} (derived : Variable tokens stmt) :
    stmt.Parsed := by
  cases derived with
  | bare => exact ⟨trivial, rfl⟩
  | initialized _ _ _ closed =>
    obtain ⟨derived, _⟩ := closed
    exact ⟨derived.parsed.1, by rw [Stmt.erase, Option.map_some, derived.parsed.2]⟩

end Grammar

def Stmt.ParsedBranch (stmt : Stmt) : Prop := stmt.Parsed ∧ stmt.declared = []

theorem Stmt.eraseAll_cons {first : Stmt} {others : List Stmt} (plain : first.erase = first)
    (plainOthers : eraseAll others = others) : eraseAll (first :: others) = first :: others := by
  rw [eraseAll, plain, plainOthers]

namespace Grammar

theorem parsed_withIncrement {body : Stmt} {increment : Option Expr} (parsed : body.ParsedBranch)
    (parsedIncrement : ∀ expr ∈ increment, expr.Parsed) :
    (withIncrement body increment).ParsedBranch := by
  cases increment with
  | none => exact parsed
  | some increment =>
    obtain ⟨proper, plain⟩ := parsedIncrement increment rfl
    refine ⟨⟨⟨parsed.1.1, proper, trivial⟩, ?_⟩, rfl⟩
    rw [withIncrement, Stmt.erase, Stmt.eraseAll, Stmt.eraseAll, Stmt.eraseAll, parsed.1.2,
      Stmt.erase, plain]

theorem parsed_withInitializer {loop : Stmt} {initializer : Option Stmt}
    (parsed : loop.ParsedBranch) (parsedInitializer : ∀ stmt ∈ initializer, stmt.Parsed) :
    (withInitializer loop initializer).ParsedBranch := by
  cases initializer with
  | none => exact parsed
  | some initializer =>
    obtain ⟨proper, plain⟩ := parsedInitializer initializer rfl
    refine ⟨⟨⟨proper, parsed.1.1, trivial⟩, ?_⟩, rfl⟩
    rw [withInitializer, Stmt.erase, Stmt.eraseAll, Stmt.eraseAll, Stmt.eraseAll, parsed.1.2, plain]

theorem parsed_ret {tokens : List Token} {word : Token} {value : Option Expr}
    (derived : Clause tokens value) : (Stmt.ret word value).ParsedBranch := by
  have parsed := derived.parsed
  cases value with
  | none => exact ⟨⟨trivial, rfl⟩, rfl⟩
  | some value =>
    obtain ⟨proper, plain⟩ := parsed value rfl
    exact ⟨⟨proper, by rw [Stmt.erase, Option.map_some, plain]⟩, rfl⟩

theorem parsed_condition {tokens : List Token} {condition : Option Expr}
    (derived : Clause tokens condition) :
    (condition.getD (.literal (.bool true))).Parsed := by
  cases derived with
  | absent => exact ⟨trivial, rfl⟩
  | present derived => exact derived.parsed

theorem parsed_loop {condition : Expr} {body : Stmt} (parsed : condition.Parsed)
    (branch : body.ParsedBranch) : (Stmt.loop condition body).ParsedBranch := by
  refine ⟨⟨⟨parsed.1, branch.1.1, branch.2⟩, ?_⟩, rfl⟩
  rw [Stmt.erase, parsed.2, branch.1.2]

theorem parsed_ifOnly {condition : Expr} {yes : Stmt} (parsed : condition.Parsed)
    (branch : yes.ParsedBranch) : (Stmt.conditional condition yes none).ParsedBranch := by
  refine ⟨⟨⟨parsed.1, branch.1.1, branch.2⟩, ?_⟩, rfl⟩
  rw [Stmt.erase, parsed.2, branch.1.2]

theorem parsed_ifElse {condition : Expr} {yes no : Stmt} (parsed : condition.Parsed)
    (branch : yes.ParsedBranch) (other : no.ParsedBranch) :
    (Stmt.conditional condition yes (some no)).ParsedBranch := by
  refine ⟨⟨⟨parsed.1, ⟨branch.1.1, branch.2⟩, other.1.1, other.2⟩, ?_⟩, rfl⟩
  rw [Stmt.erase, parsed.2, branch.1.2, other.1.2]

theorem Initializer.parsed {tokens : List Token} {initializer : Option Stmt}
    (derived : Initializer tokens initializer) : ∀ stmt ∈ initializer, stmt.Parsed := by
  cases derived with
  | absent => simp
  | «variable» derived => simpa using derived.parsed
  | expression closed =>
    obtain ⟨derived, _⟩ := closed
    obtain ⟨proper, plain⟩ := derived.parsed
    simpa [Stmt.Parsed, Stmt.Proper, Stmt.erase, plain] using proper

mutual

theorem Statement.parsed : ∀ {dangling : Bool} {tokens : List Token} {stmt : Stmt},
    Statement dangling tokens stmt → stmt.ParsedBranch
  | _, _, _, .expression (.intro derived _) =>
    ⟨⟨derived.parsed.1, congrArg Stmt.expression derived.parsed.2⟩, rfl⟩
  | _, _, _, .print _ (.intro derived _) =>
    ⟨⟨derived.parsed.1, congrArg Stmt.print derived.parsed.2⟩, rfl⟩
  | _, _, _, .ret _ clause _ => parsed_ret clause
  | _, _, _, .block _ body _ => ⟨⟨body.parsed.1, congrArg Stmt.block body.parsed.2⟩, rfl⟩
  | _, _, _, .loop _ _ condition _ body => parsed_loop condition.parsed body.parsed
  | _, _, _, .forLoop _ _ first test _ step _ body =>
    parsed_withInitializer
      (parsed_loop (parsed_condition test) (parsed_withIncrement body.parsed step.parsed))
      first.parsed
  | _, _, _, .ifOnly _ _ condition _ yes => parsed_ifOnly condition.parsed yes.parsed
  | _, _, _, .ifElse _ _ condition _ yes _ no =>
    parsed_ifElse condition.parsed yes.parsed no.parsed

theorem Declaration.parsed : ∀ {tokens : List Token} {stmt : Stmt},
    Declaration tokens stmt → stmt.Parsed
  | _, _, .function _ _ _ _ _ _ body _ =>
    ⟨body.parsed.1, congrArg (Stmt.funDecl _ _) body.parsed.2⟩
  | _, _, .variable derived => derived.parsed
  | _, _, .statement derived => derived.parsed.1

theorem Declarations.parsed : ∀ {tokens : List Token} {stmts : List Stmt},
    Declarations tokens stmts → Stmt.AllProper stmts ∧ Stmt.eraseAll stmts = stmts
  | _, _, .none => ⟨trivial, rfl⟩
  | _, _, .more first others =>
    ⟨⟨first.parsed.1, others.parsed.1⟩, Stmt.eraseAll_cons first.parsed.2 others.parsed.2⟩

end

end Grammar

theorem Program.parsed_of_no_errors {tokens : List Token}
    (accepted : (Program.ofTokens tokens).errors = []) :
    Stmt.AllProper (Program.ofTokens tokens).statements ∧
      Stmt.eraseAll (Program.ofTokens tokens).statements = (Program.ofTokens tokens).statements := by
  have same : Program.ofTokens tokens = ⟨(Program.ofTokens tokens).statements, []⟩ := by
    rw [← accepted]
  exact (Program.derives_of_ofTokens_eq same).parsed

end Lox
