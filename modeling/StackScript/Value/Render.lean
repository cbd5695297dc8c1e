import StackScript.Value.ArrayText
import StackScript.Value.Inspect
import StackScript.Value.Json

/-! # Written values

The written form of a value is what a program puts out for it: numbers and truth values in
their shortest form, lists in brackets, and everything else as a string. Raw text is written
as the value that it spells. Every level of nesting takes two of the `depth` nested calls
that are left.
-/

namespace StackScript

/-- The string literal of a computed text. -/
def Text.quote (t : Text) : Text := '"' :: t ++ ['"']

/-- The string literal of any text, which loses its double quotes. -/
def Text.quoteStripped (t : Text) : Text := quote (t.filter (· != '"'))

/-- The written form of a truth value. -/
def Text.ofBool (b : Bool) : Text := if b then "true".toList else "false".toList

namespace Value

/-- A list of values in brackets, given how each is written. -/
def renderItems (item : Value → Except Fault Text) (items : List Value) : Except Fault Text := do
  return '[' :: Text.join [',', ' '] (← items.mapM item) ++ [']']

/-- Raw text as the value that it spells, given how the elements of a list are written. -/
def renderText (depth : Nat) (item : Value → Except Fault Text) (t : Text) :
    Except Fault Text := do
  if Number.isNumeral t then
    match ← Number.read? t with
    | some n => n.write
    | none => return Text.quoteStripped t
  else if Text.isBooleanLiteral t then return Text.ofBool (Text.isTrue t)
  else if isOperatorName t then return t
  else if Text.isArrayLiteral t then renderItems item (← ArrayText.read depth t)
  else if Text.isMatrixLiteral t then
    match ← Json.readList? depth t with
    | some items => renderItems item items
    | none => return Text.quoteStripped t
  else return Text.quoteStripped t

/-- The written form of a value. -/
def render : (depth : Nat) → Value → Except Fault Text
  | _, .bool b => .ok (Text.ofBool b)
  | _, .number n => n.write
  | depth + 2, .list items => renderItems (render depth) items
  | depth + 2, .text t => renderText depth (render depth) t
  | depth + 2, v => (v.inspect depth).map Text.quoteStripped
  | _, _ => .error .tooDeep

/-- A value as it takes part in comparisons of texts: raw text as it is, any other value in
its written form. -/
def textOf (depth : Nat) : Value → Except Fault Text
  | .text t => .ok t
  | v => v.render depth

end Value

/-- The written stack: a line for each slot, the bottom one first. -/
def Stack.render (depth : Nat) (s : Stack) : Except Fault Text := do
  return Text.join ['\n'] (← s.reverse.mapM (Value.render depth))

end StackScript
