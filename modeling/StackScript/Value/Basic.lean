import StackScript.Number.Basic

/-! # Values

A slot of the stack holds raw text, as it stood in the program, or a computed value. Lists
are vectors and, if all their elements are lists, matrices. The null value and objects only
come out of matrix texts.
-/

namespace StackScript

/-- What a slot of the stack, or an element of a list, holds. -/
inductive Value where
  /-- Raw text, of whatever kind. -/
  | text (t : Text)
  | bool (b : Bool)
  | null
  | number (n : Number)
  | list (items : List Value)
  /-- Fields in the order of their first appearance. -/
  | object (fields : List (Text × Value))

namespace Value

/-- An integer as a value. -/
def ofInt (n : Int) : Value := .number (.int n)

/-- Is the value a list? -/
def isList : Value → Bool
  | .list _ => true
  | _ => false

end Value

/-- A stack of values, the topmost first. -/
abbrev Stack := List Value

end StackScript
