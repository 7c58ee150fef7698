import Lox.Proofs.Forms.Reading
import Lox.Proofs.Grammar.Builds
import Lox.Proofs.Tiling.Written

/-! The written form determines the tree.

Every statement in a program read from a text is built from lexemes, so it is read
back from its sketch, which is found in its written form. Two such statements with
one form differ in the lines of their tokens at most.
-/

set_option autoImplicit false

namespace Lox

open Token (Scan)

mutual

def Stmt.within : Stmt → List Stmt
  | .block body => .block body :: withinAll body
  | .conditional condition yes none => .conditional condition yes none :: yes.within
  | .conditional condition yes (some no) =>
    .conditional condition yes (some no) :: (yes.within ++ no.within)
  | .loop condition body => .loop condition body :: body.within
  | .funDecl name params body => .funDecl name params body :: withinAll body
  | stmt => [stmt]

def Stmt.withinAll : List Stmt → List Stmt
  | [] => []
  | first :: others => first.within ++ withinAll others

end

mutual

theorem Stmt.built_within {known : Token → Prop} : ∀ stmt : Stmt, stmt.Built known →
    ∀ part ∈ stmt.within, part.Built known
  | .block body, built => List.forall_mem_cons.mpr ⟨built, built_withinAll body built⟩
  | .conditional _ yes none, built =>
    List.forall_mem_cons.mpr ⟨built, yes.built_within built.2.1⟩
  | .conditional _ yes (some no), built =>
    List.forall_mem_cons.mpr ⟨built, List.forall_mem_append.mpr
      ⟨yes.built_within built.2.1.1, no.built_within built.2.2.1⟩⟩
  | .loop _ body, built => List.forall_mem_cons.mpr ⟨built, body.built_within built.2.1⟩
  | .funDecl _ _ body, built => List.forall_mem_cons.mpr ⟨built, built_withinAll body built.2.2⟩
  | .expression _, built | .print _, built | .varDecl _ _, built | .ret _ _, built =>
    List.forall_mem_singleton.mpr built

theorem Stmt.built_withinAll {known : Token → Prop} : ∀ stmts : List Stmt, AllBuilt known stmts →
    ∀ part ∈ withinAll stmts, part.Built known
  | [], _ => List.forall_mem_nil _
  | first :: others, built =>
    List.forall_mem_append.mpr ⟨first.built_within built.1, built_withinAll others built.2⟩

end

/-- The tokens of a text are spelled as lexemes. -/
theorem Token.Scan.spelled (text : List Char) : ∀ token ∈ (Scan.ofText text).tokens, token.Spelled := by
  obtain ⟨tiles, tiled⟩ := Tiles.exists text
  have tokens : (Scan.ofText text).tokens = Tile.readOff Tile.token? [] tiles :=
    (Scan.ofTextFrom_tiled tiled []).1
  rw [tokens]
  exact tiled.lexeme_of_mem []

theorem Stmt.relabel_eq_of_form_eq {stmt twin : Stmt} (built : stmt.Built Token.Spelled)
    (also : twin.Built Token.Spelled) (same : stmt.form = twin.form) :
    stmt.relabel (fun _ => 0) = twin.relabel fun _ => 0 := by
  have written : stmt.toNode.write = twin.toNode.write := String.ofList_injective same
  rw [← Node.write_sketch, ← Node.write_sketch] at written
  have sketches := Sketch.write_inj (stmt.clear_sketch built) (twin.clear_sketch also) written
  rw [← stmt.read_sketch built, ← twin.read_sketch also, sketches]

namespace Source

/-- Two statements anywhere in the programs of two texts that are written alike are the
same tree, but for the lines of their tokens: kinds, names, operators, constants and
parts are equal. This holds of what parsed in a text with faults, too. -/
theorem form_determines {first second : List Char} {stmt twin : Stmt}
    (here : stmt ∈ Stmt.withinAll (ofText first).program.statements)
    (there : twin ∈ Stmt.withinAll (ofText second).program.statements)
    (same : stmt.form = twin.form) :
    stmt.relabel (fun _ => 0) = twin.relabel fun _ => 0 :=
  Stmt.relabel_eq_of_form_eq
    (Stmt.built_withinAll _ (Program.built_ofTokens (Scan.spelled first)) stmt here)
    (Stmt.built_withinAll _ (Program.built_ofTokens (Scan.spelled second)) twin there) same

def differenceTokens (line : Int) : List Token :=
  [⟨.printWord, "print", none, line⟩, ⟨.minus, "-", none, line⟩, ⟨.identifier, "a", none, line⟩,
    ⟨.minus, "-", none, line⟩, ⟨.string, "\"(\"", some (.string "("), line⟩, ⟨.semicolon, ";", none, line⟩]

def difference (line : Int) : Stmt :=
  .print (.binary (.unary ⟨.minus, "-", none, line⟩ (.reference ⟨.identifier, "a", none, line⟩ none))
    ⟨.minus, "-", none, line⟩ (.literal (.string "(")))

theorem difference_mem {text : List Char} {line : Int}
    (tokens : (Scan.ofText text).tokens = differenceTokens line) :
    difference line ∈ Stmt.withinAll (ofText text).program.statements := by
  rw [ofText, tokens]
  exact List.mem_singleton_self _

/-- The difference on one line, and with blanks on the next. -/
theorem form_determines_difference :
    let text := ['p', 'r', 'i', 'n', 't', '-', 'a', '-', '"', '(', '"', ';']
    let spaced := ['\n', 'p', 'r', 'i', 'n', 't', ' ', '-', 'a', ' ', '-', ' ', '"', '(', '"', ' ', ';']
    difference 1 ∈ Stmt.withinAll (ofText text).program.statements ∧
    difference 2 ∈ Stmt.withinAll (ofText spaced).program.statements ∧
    (difference 1).form = (difference 2).form ∧
    (difference 1).relabel (fun _ => 0) = (difference 2).relabel fun _ => 0 := by
  intro text spaced
  have here := @difference_mem text 1 (by decide +kernel)
  have there := @difference_mem spaced 2 (by decide +kernel)
  exact ⟨here, there, rfl, form_determines here there rfl⟩

end Source

end Lox
