import Lox.Number.Layout

/-! Constants of the language and their texts.

A printed string is its own text, while in a syntax tree it stands between
double quotes; printed numbers drop the point of a whole number, numbers in a
tree keep it.
-/

set_option autoImplicit false

namespace Lox

inductive Literal where
  | nil
  | bool (value : Bool)
  | number (value : Number)
  | string (value : String)
  deriving DecidableEq

namespace Literal

/-- Only `nil` and `false` count as false. -/
def truthy : Literal → Bool
  | .nil => false
  | .bool value => value
  | _ => true

def display : Literal → List Char
  | .nil => "nil".toList
  | .bool true => "true".toList
  | .bool false => "false".toList
  | .number value => Number.Layout.display.write value
  | .string value => value.toList

def form : Literal → List Char
  | .nil => "nil".toList
  | .bool true => "true".toList
  | .bool false => "false".toList
  | .number value => Number.Layout.plain.write value
  | .string value => '"' :: value.toList ++ ['"']

end Literal

end Lox
