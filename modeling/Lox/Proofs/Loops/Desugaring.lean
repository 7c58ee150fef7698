import Lox.Proofs.Grammar.Phrase
import Lox.Proofs.Grammar.StmtSoundness
import Lox.Proofs.Grammar.Trees
import Lox.Proofs.Loops.Resolving
import Lox.Proofs.Session.Frames
import Lox.Proofs.Thinning.Sight

/-! The tree of a `for` loop does what the loop does.

Wherever the tree is accepted, so is the loop itself, and from every state nothing tells the two
apart: not what is printed, not how they end, not what is bound around them, and nothing
that a program does afterwards.
-/

set_option autoImplicit false

namespace Lox

open Grammar

namespace ForLoop

/-- The tokens of a loop, clause by clause. -/
inductive Written : List Token → ForLoop → Prop where
  | intro {word opening semicolon closing : Token} {first test step tokens : List Token}
      {initializer : Option Stmt} {condition increment : Option Expr} {dangling : Bool}
      {body : Stmt} :
      word.kind = .forWord → opening.kind = .leftParen → Initializer first initializer →
      Clause test condition → semicolon.kind = .semicolon → Clause step increment →
      closing.kind = .rightParen → Statement dangling tokens body →
      Written (word :: opening :: first ++ test ++ semicolon :: step ++ closing :: tokens)
        ⟨initializer, condition, increment, body⟩

theorem Written.body {tokens : List Token} {loop : ForLoop} (written : Written tokens loop) :
    loop.body.Proper ∧ loop.body.declared = [] := by
  cases written with
  | intro _ _ _ _ _ _ _ derived => exact ⟨derived.parsed.1.1, derived.parsed.2⟩

theorem exists_of_statement {word : Token} {tail : List Token} {dangling : Bool} {stmt : Stmt}
    (derived : Statement dangling (word :: tail) stmt) (isFor : word.kind = .forWord) :
    ∃ loop : ForLoop, Written (word :: tail) loop ∧ stmt = loop.tree := by
  generalize same : word :: tail = tokens at derived
  cases derived with
  | expression closed =>
    obtain ⟨first, rest, rfl, isFirst⟩ := closed.head
    cases same
    simp [isFor, Level.starters] at isFirst
  | forLoop isWord isOpening first test isSemicolon step isClosing body =>
    exact ⟨_, .intro isWord isOpening first test isSemicolon step isClosing body,
      (Syntax.forLoop_eq ..).symm⟩
  | print isWord | ret isWord | block isWord | loop isWord | ifOnly isWord | ifElse isWord =>
    cases same
    rw [isFor] at isWord
    cases isWord

/-! ### The frame of the loop -/

theorem test_extended (rules : Rules) (loop : ForLoop) (fuel : Nat) (machine : Machine) :
    (loop.test rules fuel machine).Ends (fun _ after => machine.Extended after) fun _ => True := by
  unfold test
  split
  · exact .refl machine
  next condition _ =>
    exact ((growsWith rules fuel).evaluate condition machine).bind fun unmoved => unmoved.extended

theorem turn_extended (rules : Rules) (loop : ForLoop) (fuel : Nat) (machine : Machine) :
    (loop.turn rules fuel machine).Ends (fun _ after => machine.Extended after) fun _ => True := by
  have grows := growsWith rules fuel
  unfold turn OutcomeIn.proceed
  refine (grows.execute loop.body machine).bind fun {completion after} extended => ?_
  cases completion with
  | returned value => exact extended
  | normal =>
    dsimp only
    unfold advance
    split
    · exact extended
    next increment _ =>
      exact (grows.evaluate increment after).bind fun unmoved => extended.trans unmoved.extended

theorem extended_of_between {rules : Rules} {loop : ForLoop} {start machine : Machine}
    (between : Between (loop.test rules) (loop.turn rules) start machine) :
    start.Extended machine := by
  induction between with
  | start => exact .refl start
  | @round fuel before tested after _ holds turns ih =>
    have test := loop.test_extended rules fuel before
    have turn := loop.turn_extended rules fuel tested
    rw [holds] at test
    rw [turns] at turn
    exact (ih.trans test).trans turn

theorem tree_unmoved (rules : Rules) {loop : ForLoop} (declares : loop.initializer.isSome) (fuel : Nat)
    (machine : Machine) :
    (execute rules fuel loop.tree machine).Ends (fun _ after => machine.Unmoved after)
      fun _ => True := by
  obtain ⟨initializer, same⟩ := Option.isSome_iff_exists.mp declares
  rw [tree_eq, same]
  cases fuel with
  | zero => trivial
  | succ fuel =>
    rw [execute_block, OutcomeIn.ends_mapState]
    exact ((growsWith rules fuel).executeAll _ _).mono
      (fun extended => Machine.unmoved_of_enter extended.grows) id

/-! ### The tree and the loop -/

/-- From a machine, a tree and a loop that is run directly show the same. All turns share the
frame of the initializer, and if there is one then no frame from before gets a name. -/
structure RunsAs (rules : Rules) (machine : Machine) (tree : Stmt) (loop : ForLoop) : Prop where
  direct : ∀ fuel, ∃ more, OutcomeIn.Shows rules machine (execute rules fuel tree machine)
    (loop.run rules more machine)
  desugared : ∀ fuel, ∃ more, OutcomeIn.Shows rules machine (loop.run rules fuel machine)
    (execute rules more tree machine)
  shared : ∀ initializer ∈ loop.initializer, ∀ fuel start,
    execute rules fuel initializer (machine.enter machine.frame) = .done .normal start →
    ∀ between, Between (loop.test rules) (loop.turn rules) start between →
      between.frame = machine.store.next
  gone : loop.initializer.isSome → ∀ fuel completion after,
    execute rules fuel tree machine = .done completion after → machine.Unmoved after

theorem Thinned.runsAs {rules : Rules} {machine : Machine} {wide slim : ForLoop}
    (thinned : wide.Thinned slim) (lexical : rules.lookup = .lexical) (rooted : machine.Rooted) :
    RunsAs rules machine wide.tree slim where
  direct fuel := by
    have both := thinned.run lexical (fuel + 4) rooted.thinnedAt_self
    exact ⟨fuel + 4, (both.shows lexical rooted).1.of_lasts (wide.tree_lasts rules fuel machine)⟩
  desugared fuel := by
    have both := thinned.run lexical fuel rooted.thinnedAt_self
    exact ⟨fuel + 8, (both.shows lexical rooted).2.lasts (wide.lasts_tree rules fuel machine)⟩
  shared initializer _ fuel start same between reached := by
    have ends := (growsWith rules fuel).execute initializer (machine.enter machine.frame)
    rw [same] at ends
    exact (extended_of_between reached).frame.trans ends.frame
  gone declares fuel completion after same := by
    have ends := tree_unmoved rules (thinned.initializer ▸ declares) fuel machine
    rw [same] at ends
    exact ends

/-- Every `for` statement that is read, wherever in a program it is accepted, runs as the loop
that is written in its clauses. -/
theorem reads_runsAs {fuel : Nat} {word : Token} {tail rest : List Token} {stmt tree : Stmt}
    {scopes behind : List Scope} {inFunction : Bool} {uses : List LocalUse}
    (isFor : word.kind = .forWord)
    (reads : (Syntax.StmtParser.statement fuel).Reads (word :: tail) stmt rest)
    (around : Scope.Around scopes inFunction)
    (accepted : (stmt.resolve scopes inFunction).Yields (tree, behind) uses) :
    ∃ (tokens : List Token) (loop direct : ForLoop) (more : List LocalUse),
      word :: tail = tokens ++ rest ∧ Written tokens loop ∧
      (loop.resolve scopes inFunction).Yields direct more ∧ behind = scopes ∧
      ∀ rules machine, rules.lookup = .lexical → machine.Rooted →
        RunsAs rules machine tree direct := by
  obtain ⟨used, dangling, split, derived, _⟩ :=
    Syntax.StmtParser.statement_sound fuel _ _ _ reads
  obtain ⟨first, others, rfl, _⟩ := derived.head
  obtain ⟨rfl, rfl⟩ := List.cons.inj split
  -- Its body declares nothing, so the scope of a turn stays empty.
  obtain ⟨loop, written, rfl⟩ := exists_of_statement derived isFor
  obtain ⟨direct, more, resolves, wide, same, thinned⟩ :=
    tree_follows written.body.1 written.body.2 around.settled _ _ accepted
  cases same
  exact ⟨_, loop, direct, more, rfl, written, resolves, rfl,
    fun rules machine lexical rooted => thinned.runsAs lexical rooted⟩

/-- The loop `for (var a = true; a; a = false) print a;`. -/
def oneTurn : List Token :=
  let name : Token := ⟨.identifier, "a", none, 1⟩
  let equal : Token := ⟨.equal, "=", none, 1⟩
  let semicolon : Token := ⟨.semicolon, ";", none, 1⟩
  [⟨.forWord, "for", none, 1⟩, ⟨.leftParen, "(", none, 1⟩, ⟨.varWord, "var", none, 1⟩, name, equal,
    ⟨.trueWord, "true", none, 1⟩, semicolon, name, semicolon, name, equal,
    ⟨.falseWord, "false", none, 1⟩, ⟨.rightParen, ")", none, 1⟩, ⟨.printWord, "print", none, 1⟩,
    name, semicolon]

/-- It prints once, as a tree and directly. -/
theorem reads_runsAs_oneTurn :
    let rules : Rules := ⟨none, .lexical, fun _ => 0⟩
    ∃ stmt tree uses direct, (Syntax.StmtParser.statement 9).Reads oneTurn stmt [] ∧
      (stmt.resolve [] false).Yields (tree, []) uses ∧
      RunsAs rules Machine.initial tree direct ∧
      ∃ more last, direct.run rules more Machine.initial = .done .normal last ∧
        last.printed = #["true"] := by
  intro rules
  obtain ⟨stmt, tree, uses, reads, accepted, after, ends, printed⟩ : ∃ stmt tree uses,
      (Syntax.StmtParser.statement 9).Reads oneTurn stmt [] ∧
      (stmt.resolve [] false).Yields (tree, []) uses ∧ ∃ after,
      execute rules 11 tree Machine.initial = .done .normal after ∧ after.printed = #["true"] :=
    ⟨_, _, _, rfl, rfl, _, rfl, rfl⟩
  obtain ⟨_, _, direct, _, _, _, _, _, runs⟩ := reads_runsAs rfl reads .top accepted
  have same := runs rules Machine.initial rfl Machine.rooted_initial
  obtain ⟨more, also⟩ := same.direct 11
  rw [ends] at also
  generalize answer : direct.run rules more Machine.initial = outcome at also
  obtain @⟨_, second, _, last, alike⟩ := also
  cases second with
  | normal =>
    exact ⟨stmt, tree, uses, direct, reads, accepted, same, more, last, answer,
      alike.looks.printed.trans printed⟩
  | returned value => cases alike.values

end ForLoop

end Lox
