import Lox.Proofs.Tiling.Lexeme
import Lox.Syntax.Node

/-! What a written form shows.

A form is an atom or a group: a head and parts between parentheses. A clear
sketch can be split off the front of any text that goes on with a blank or a
closing parenthesis, so its written form determines it.
-/

set_option autoImplicit false

namespace Lox

open Token (takeWhile_of_cut not_mem_iff)

inductive Sketch where
  | atom (text : List Char)
  | group (head : List Char) (parts : List Sketch)

namespace Sketch

mutual

def write : Sketch → List Char
  | .atom text => text
  | .group head parts => Node.parenthesized head (writeAll parts)

def writeAll : List Sketch → List (List Char)
  | [] => []
  | first :: others => first.write :: writeAll others

end

def isPlain (c : Char) : Bool := c != ' ' && c != '(' && c != ')' && c != '"'

/-- A class of characters without the four marks. -/
theorem isPlain_of_class {p : Char → Bool} {c : Char}
    (others : [' ', '(', ')', '"'].all (fun mark => !p mark) = true) (member : p c = true) :
    isPlain c = true := by
  simp only [List.all_cons, Bool.and_eq_true, Bool.not_eq_true'] at others
  simp only [isPlain, Bool.and_eq_true, bne_iff_ne]
  grind

/-- A word, or a text between quotes that has none inside. -/
inductive Whole : List Char → Prop where
  | word {first : Char} {others : List Char} :
      (∀ c ∈ first :: others, isPlain c = true) → Whole (first :: others)
  | quoted {body : List Char} : '"' ∉ body → Whole ('"' :: (body ++ ['"']))

mutual

def Clear : Sketch → Prop
  | .atom text => Whole text
  | .group head parts => (∀ c ∈ head, isPlain c = true) ∧ AllClear parts

def AllClear : List Sketch → Prop
  | [] => True
  | first :: others => first.Clear ∧ AllClear others

end

def Ends (rest : List Char) : Prop := ∀ c ∈ rest.head?, c = ' ' ∨ c = ')'

section
variable {text other rest behind : List Char}

theorem ends_nil : Ends [] := nofun

theorem ends_blank : Ends (' ' :: rest) := fun _ first => .inl (Option.some.inj first).symm

theorem ends_paren : Ends (')' :: rest) := fun _ first => .inr (Option.some.inj first).symm

theorem Ends.not_plain (ends : Ends rest) : ∀ c ∈ rest.head?, isPlain c = false := by
  intro c first
  rcases ends c first with rfl | rfl <;> rfl

theorem word_append_inj (word : ∀ c ∈ text, isPlain c = true) (twin : ∀ c ∈ other, isPlain c = true)
    (ends : Ends rest) (also : Ends behind) (same : text ++ rest = other ++ behind) :
    text = other ∧ rest = behind := by
  obtain ⟨front, back⟩ := takeWhile_of_cut word ends.not_plain
  obtain ⟨twins, after⟩ := takeWhile_of_cut twin also.not_plain
  rw [same] at front back
  exact ⟨front.symm.trans twins, back.symm.trans after⟩

theorem quoted_append_inj (body : '"' ∉ text) (twin : '"' ∉ other)
    (same : text ++ '"' :: rest = other ++ '"' :: behind) : text = other ∧ rest = behind := by
  obtain ⟨front, back⟩ := @takeWhile_of_cut _ text ('"' :: rest) (not_mem_iff.mp body) (by simp)
  obtain ⟨twins, after⟩ := @takeWhile_of_cut _ other ('"' :: behind) (not_mem_iff.mp twin) (by simp)
  rw [same] at front back
  exact ⟨front.symm.trans twins, List.tail_eq_of_cons_eq (back.symm.trans after)⟩

theorem Whole.append_inj (whole : Whole text) (twin : Whole other) (ends : Ends rest)
    (also : Ends behind) (same : text ++ rest = other ++ behind) : text = other ∧ rest = behind := by
  cases whole with
  | word plain =>
    cases twin with
    | word plains => exact word_append_inj plain plains ends also same
    | quoted _ =>
      obtain ⟨rfl, -⟩ := List.cons.inj same
      exact absurd (plain _ List.mem_cons_self) (by decide)
  | @quoted body closed =>
    cases twin with
    | word plains =>
      obtain ⟨rfl, -⟩ := List.cons.inj same
      exact absurd (plains _ List.mem_cons_self) (by decide)
    | @quoted twin closes =>
      have inner : body ++ ['"'] ++ rest = twin ++ ['"'] ++ behind := List.tail_eq_of_cons_eq same
      rw [List.append_assoc, List.append_assoc] at inner
      obtain ⟨rfl, rest⟩ := quoted_append_inj closed closes inner
      exact ⟨rfl, rest⟩

theorem Whole.append_ne (whole : Whole text) : text ++ rest ≠ '(' :: behind := by
  intro same
  cases whole with
  | word plain =>
    obtain ⟨rfl, -⟩ := List.cons.inj same
    exact absurd (plain _ List.mem_cons_self) (by decide)
  | quoted => exact absurd (List.head_eq_of_cons_eq same) (by decide)

def tailOf (parts : List Sketch) (rest : List Char) : List Char :=
  (writeAll parts).flatMap (' ' :: ·) ++ ')' :: rest

theorem tailOf_nil : tailOf [] rest = ')' :: rest := rfl

theorem tailOf_cons (first : Sketch) (others : List Sketch) :
    tailOf (first :: others) rest = ' ' :: (first.write ++ tailOf others rest) := by
  simp [tailOf, writeAll]

theorem ends_tailOf (parts : List Sketch) : Ends (tailOf parts rest) := by
  cases parts with
  | nil => exact ends_paren
  | cons first others =>
    rw [tailOf_cons]
    exact ends_blank

theorem write_group_append (head : List Char) (parts : List Sketch) :
    (group head parts).write ++ rest = '(' :: (head ++ tailOf parts rest) := by
  simp [write, Node.parenthesized, tailOf]

end

mutual

theorem write_append_inj : ∀ (sketch other : Sketch) {rest behind : List Char}, sketch.Clear → other.Clear →
    Ends rest → Ends behind → sketch.write ++ rest = other.write ++ behind →
    sketch = other ∧ rest = behind
  | .atom _, .atom _, _, _, clear, also, ends, ended, same => by
    obtain ⟨rfl, rest⟩ := Whole.append_inj clear also ends ended same
    exact ⟨rfl, rest⟩
  | .atom _, .group head parts, _, _, clear, _, _, _, same => by
    rw [write_group_append] at same
    exact absurd same (Whole.append_ne clear)
  | .group head parts, .atom _, _, _, _, clear, _, _, same => by
    rw [write_group_append] at same
    exact absurd same.symm (Whole.append_ne clear)
  | .group head parts, .group twin others, _, _, ⟨word, clear⟩, ⟨words, also⟩, _, _, same => by
    rw [write_group_append, write_group_append] at same
    -- A head ends where the blank of the first part or the closing parenthesis stands.
    obtain ⟨rfl, tails⟩ := word_append_inj word words (ends_tailOf parts) (ends_tailOf others)
      (List.tail_eq_of_cons_eq same)
    obtain ⟨rfl, rest⟩ := tailOf_inj parts others clear also tails
    exact ⟨rfl, rest⟩

theorem tailOf_inj : ∀ (parts others : List Sketch) {rest behind : List Char}, AllClear parts →
    AllClear others → tailOf parts rest = tailOf others behind → parts = others ∧ rest = behind
  | [], [], _, _, _, _, same => ⟨rfl, List.tail_eq_of_cons_eq same⟩
  | [], _ :: _, _, _, _, _, same => by
    rw [tailOf_nil, tailOf_cons] at same
    exact absurd (List.head_eq_of_cons_eq same) (by decide)
  | _ :: _, [], _, _, _, _, same => by
    rw [tailOf_nil, tailOf_cons] at same
    exact absurd (List.head_eq_of_cons_eq same) (by decide)
  | first :: parts, twin :: others, _, _, ⟨clear, all⟩, ⟨also, every⟩, same => by
    rw [tailOf_cons, tailOf_cons] at same
    obtain ⟨rfl, tails⟩ := write_append_inj first twin clear also (ends_tailOf parts) (ends_tailOf others)
      (List.tail_eq_of_cons_eq same)
    obtain ⟨rfl, rest⟩ := tailOf_inj parts others all every tails
    exact ⟨rfl, rest⟩

end

/-- The written form of a clear sketch determines it. -/
theorem write_inj {sketch other : Sketch} (clear : sketch.Clear) (also : other.Clear)
    (same : sketch.write = other.write) : sketch = other :=
  (write_append_inj sketch other clear also ends_nil ends_nil (congrArg (· ++ []) same)).1

end Sketch

/-! The sketch of a node -/

namespace Node

open Sketch (atom group)

def nameAtom (name : Token) : Sketch := atom name.lexeme.toList

def paramGroup : List Token → Sketch
  | [] => group [] []
  | first :: others => group first.lexeme.toList (others.map nameAtom)

mutual

def sketch : Node → Sketch
  | .assign name value => group ['='] [nameAtom name, sketch value]
  | .binary left operator right | .logical left operator right =>
    group operator.lexeme.toList [sketch left, sketch right]
  | .call callee _ arguments => group "call".toList (sketch callee :: sketchAll arguments)
  | .grouping inner => group "group".toList [sketch inner]
  | .literal value => atom value.form
  | .unary operator operand => group operator.lexeme.toList [sketch operand]
  | .reference name => group "var".toList [nameAtom name]
  | .block body => group "block".toList (sketchAll body)
  | .expression inner => group [';'] [sketch inner]
  | .funDecl name params body => group "fun".toList (nameAtom name :: paramGroup params :: sketchAll body)
  | .conditional condition yes none => group "if".toList [sketch condition, sketch yes]
  | .conditional condition yes (some no) => group "if".toList [sketch condition, sketch yes, sketch no]
  | .print inner => group "print".toList [sketch inner]
  | .ret _ none => group "return".toList []
  | .ret _ (some value) => group "return".toList [sketch value]
  | .varDecl name none => group "var".toList [nameAtom name]
  | .varDecl name (some value) => group "var".toList [nameAtom name, atom ['='], sketch value]
  | .loop condition body => group "while".toList [sketch condition, sketch body]

def sketchAll : List Node → List Sketch
  | [] => []
  | node :: nodes => sketch node :: sketchAll nodes

end

theorem write_paramGroup (params : List Token) : (paramGroup params).write = paramList params := by
  have names : ∀ names : List Token, Sketch.writeAll (names.map nameAtom) = names.map (·.lexeme.toList) := by
    intro names
    induction names with
    | nil => rfl
    | cons first others ih => exact congrArg (_ :: ·) ih
  cases params with
  | nil => rfl
  | cons first others => simp [paramGroup, Sketch.write, names, parenthesized, paramList, List.flatMap_map]

mutual

theorem write_sketch : ∀ node : Node, node.sketch.write = node.write
  | .assign name value => by
    simp only [sketch, Sketch.write, Sketch.writeAll, nameAtom, write, write_sketch value]
  | .binary left operator right | .logical left operator right => by
    simp only [sketch, Sketch.write, Sketch.writeAll, write, write_sketch left, write_sketch right]
  | .call callee _ arguments => by
    simp only [sketch, Sketch.write, Sketch.writeAll, write, write_sketch callee, writeAll_sketch arguments]
  | .grouping inner | .expression inner | .print inner | .unary _ inner | .ret _ (some inner) => by
    simp only [sketch, Sketch.write, Sketch.writeAll, write, write_sketch inner]
  | .literal _ | .reference _ | .ret _ none | .varDecl _ none => rfl
  | .block body => by
    simp only [sketch, Sketch.write, write, writeAll_sketch body]
  | .funDecl name params body => by
    simp only [sketch, Sketch.write, Sketch.writeAll, nameAtom, write, write_paramGroup, writeAll_sketch body]
  | .conditional condition yes none | .loop condition yes => by
    simp only [sketch, Sketch.write, Sketch.writeAll, write, write_sketch condition, write_sketch yes]
  | .conditional condition yes (some no) => by
    simp only [sketch, Sketch.write, Sketch.writeAll, write, write_sketch condition, write_sketch yes,
      write_sketch no]
  | .varDecl name (some value) => by
    simp only [sketch, Sketch.write, Sketch.writeAll, nameAtom, write, write_sketch value]

theorem writeAll_sketch : ∀ nodes : List Node, Sketch.writeAll (sketchAll nodes) = writeAll nodes
  | [] => rfl
  | node :: nodes => congrArg₂ List.cons (write_sketch node) (writeAll_sketch nodes)

end

end Node

end Lox
