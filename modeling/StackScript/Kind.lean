import StackScript.Text.Basic

/-! # Kinds of values

A kind is what an operator sees in a value. Written forms are classified anew whenever an
operator looks at them.
-/

namespace StackScript

/-- The kinds of values. -/
inductive Kind where
  | operator
  | number
  | string
  | boolean
  | array
  | matrix
  | lambda
  /-- Whatever has none of the other kinds. -/
  | literal
  deriving DecidableEq, Repr

namespace Kind

/-- The name under which messages speak of a kind. -/
def name : Kind → String
  | .operator => "operator"
  | .number => "number"
  | .string => "string"
  | .boolean => "boolean"
  | .array => "array"
  | .matrix => "matrix"
  | .lambda => "lambda"
  | .literal => "literal"

/-- All kinds, in the order in which a text is tried for them. -/
def all : List Kind := [.operator, .number, .string, .boolean, .array, .matrix, .lambda, .literal]

/-- Finds a kind by its name. An array may also be called a vector. -/
def ofName? (name : Text) : Option Kind :=
  if name == "vector".toList then some .array
  else all.find? fun kind => kind.name.toList == name

end Kind

end StackScript
