/-! What the arguments of the command ask for. -/

set_option autoImplicit false

namespace Lox.CommandLine

structure Flags where
  resolve : Bool
  showTree : Bool
  deriving DecidableEq, Repr

inductive Invocation where
  | usage
  | script (path : String) (flags : Flags)
  | prompt (flags : Flags)
  deriving DecidableEq, Repr

namespace Invocation

def isFlag (argument : String) : Bool := argument.startsWith "--"

def knownFlags : List String := ["--no-resolve", "--print-ast"]

/-- Flags may stand anywhere; at most one argument is a path. -/
def ofArguments (arguments : List String) : Invocation :=
  let flags := arguments.filter isFlag
  if flags.all (knownFlags.contains ·) then
    let chosen : Flags := ⟨!flags.contains "--no-resolve", flags.contains "--print-ast"⟩
    match arguments.filter (!isFlag ·) with
    | [] => .prompt chosen
    | [path] => .script path chosen
    | _ => .usage
  else .usage

end Invocation

end Lox.CommandLine
