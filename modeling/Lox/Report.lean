import Lox.Token.Basic

/-! Reports to the person who wrote the program.

A static report names a line and, where there is one, the token at fault; a
runtime report ends with its line. The journal of reports can be cleared, but
what was handed on stays handed on.
-/

set_option autoImplicit false

namespace Lox

/-- Where in its line a static fault stands. -/
inductive Report.Place where
  | somewhere
  | atEnd
  | atLexeme (lexeme : String)
  deriving DecidableEq, Repr

inductive Report where
  | static (line : Int) (place : Report.Place) (message : String)
  | runtime (line : Int) (message : String)
  deriving DecidableEq, Repr

namespace Report

def Place.text : Place → String
  | .somewhere => ""
  | .atEnd => " at end"
  | .atLexeme lexeme => " at '" ++ lexeme ++ "'"

def text : Report → String
  | .static line place message =>
    "[line " ++ toString line ++ "] Error" ++ place.text ++ ": " ++ message
  | .runtime line message => message ++ "\n[line " ++ toString line ++ "]"

def isStatic : Report → Bool
  | .static .. => true
  | .runtime .. => false

def isRuntime (report : Report) : Bool := !report.isStatic

def atLine (line : Int) (message : String) : Report := .static line .somewhere message

def atToken (token : Token) (message : String) : Report :=
  if token.kind = .endOfInput then .static token.line .atEnd message
  else .static token.line (.atLexeme token.lexeme) message

end Report

/-- The reports since the last reset with a flag for each kind, and all that were ever
handed on. The flags always say which kinds of reports there are. -/
structure Journal where
  reports : List Report
  forwarded : List Report
  hasStatic : Bool
  hasRuntime : Bool
  static_agrees : hasStatic = reports.any Report.isStatic
  runtime_agrees : hasRuntime = reports.any Report.isRuntime
  deriving DecidableEq, Repr

namespace Journal

def empty : Journal := ⟨[], [], false, false, rfl, rfl⟩

def add (journal : Journal) (report : Report) : Journal where
  reports := journal.reports ++ [report]
  forwarded := journal.forwarded ++ [report]
  hasStatic := journal.hasStatic || report.isStatic
  hasRuntime := journal.hasRuntime || report.isRuntime
  static_agrees := by simp [journal.static_agrees]
  runtime_agrees := by simp [journal.runtime_agrees]

/-- Forget the reports and take both flags back. -/
def reset (journal : Journal) : Journal := ⟨[], journal.forwarded, false, false, rfl, rfl⟩

def messages (journal : Journal) : List String := journal.reports.map Report.text

end Journal

end Lox
