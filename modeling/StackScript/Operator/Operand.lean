import StackScript.Number.Arithmetic
import StackScript.Operator.Basic
import StackScript.Value.Coerce

/-! # Operands

How operators take what they need from the values on the stack, and what they say if it is
not there.
-/

namespace StackScript

namespace Value

/-- The operand as a number. -/
def asNumber (depth : Nat) (op : Operator) (v : Value) : Except Fault Number := do
  match ← v.coerce depth .number with
  | .number n => return n
  | _ => .error (.expected op .number (← v.textOf depth))

/-- The operand as the elements of an array or a matrix. -/
def asList (depth : Nat) (op : Operator) (k : Kind) (v : Value) :
    Except Fault (List Value) := do
  let converted ← if v.isA k then v.coerce depth k else pure .null
  match converted with
  | .list items => return items
  | _ => .error (.expected op k (← v.textOf depth))

end Value

/-- What a comparison looks at: two numbers, two texts, or, if one of two numbers is too long
to be read, a text and a number. -/
inductive Comparands where
  | numbers (left right : Number)
  | texts (left right : Text)
  | mixed (textOnLeft : Bool) (number : Number)

namespace Comparands

/-- Two values are compared as numbers if both are numbers, else as texts. -/
def of (depth : Nat) (left right : Value) : Except Fault Comparands := do
  if left.isA .number && right.isA .number then
    match ← left.coerce depth .number, ← right.coerce depth .number with
    | .number m, .number n => return .numbers m n
    | .number m, _ => return .mixed false m
    | _, .number n => return .mixed true n
    | l, r => return .texts (← l.textOf depth) (← r.textOf depth)
  else return .texts (← left.textOf depth) (← right.textOf depth)

/-- Texts are ordered by their code points, like words in a dictionary. -/
def compareTexts (left right : Text) : Ordering :=
  if left < right then .lt else if left = right then .eq else .gt

/-- How the two compare, if they do. A text and a number are not equal and have no order. -/
def ordering? : Comparands → Option Ordering
  | .numbers m n => Number.compare? m n
  | .texts l r => some (compareTexts l r)
  | .mixed .. => none

end Comparands

namespace Relation

/-- Does the relation hold between things that compare like this? -/
def holds (relation : Relation) (ordering : Option Ordering) : Bool :=
  match relation with
  | .equal => ordering == some .eq
  | .unequal => ordering != some .eq
  | .greater => ordering == some .gt
  | .less => ordering == some .lt
  | .atLeast => ordering == some .gt || ordering == some .eq
  | .atMost => ordering == some .lt || ordering == some .eq

/-- Does the relation ask for an order? -/
def isOrder : Relation → Bool
  | .equal | .unequal => false
  | _ => true

/-- Decides the relation; between a text and a number only equality can be decided. -/
def decide (relation : Relation) (comparands : Comparands) : Except Fault Bool :=
  match comparands with
  | .mixed textOnLeft number =>
      if relation.isOrder then .error (.unordered relation textOnLeft number.representation)
      else .ok (relation.holds none)
  | _ => .ok (relation.holds comparands.ordering?)

end Relation

end StackScript
