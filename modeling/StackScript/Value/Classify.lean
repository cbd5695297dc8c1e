import StackScript.Value.Basic

/-! # Classification

The kind of a raw text is read off its form. The forms exclude one another, although they
are tried in a fixed order.
-/

namespace StackScript

namespace Text

/-- A double quote, anything but double quotes, and a double quote. A line feed may follow. -/
def isStringLiteral (t : Text) : Bool :=
  match dropFinalLineFeed t with
  | '"' :: rest => rest.getLast? == some '"' && rest.dropLast.all (· != '"')
  | _ => false

/-- One of the two truth values, in any letter case. -/
def isBooleanLiteral (t : Text) : Bool :=
  lower t == "true".toList || lower t == "false".toList

/-- Does the text stand for true? -/
def isTrue (t : Text) : Bool := lower t == "true".toList

/-- Does the text open with two square brackets? -/
def opensTwice : Text → Bool
  | '[' :: '[' :: _ => true
  | _ => false

/-- Square brackets around anything that does not open with a further one. -/
def isArrayLiteral (t : Text) : Bool := isDelimited '[' ']' t && !opensTwice t

/-- Does the text close with two square brackets? -/
def closesTwice (t : Text) : Bool :=
  match t.reverse with
  | ']' :: ']' :: _ => true
  | _ => false

/-- Two square brackets on either side. -/
def isMatrixLiteral (t : Text) : Bool := opensTwice t && closesTwice t

/-- Braces around anything. -/
def isLambdaLiteral (t : Text) : Bool := isDelimited '{' '}' t

/-- Has a text the form that goes with a kind? -/
def hasForm (t : Text) : Kind → Bool
  | .operator => isOperatorName t
  | .number => Number.isNumeral t
  | .string => isStringLiteral t
  | .boolean => isBooleanLiteral t
  | .array => isArrayLiteral t
  | .matrix => isMatrixLiteral t
  | .lambda => isLambdaLiteral t
  | .literal => true

/-- The first kind whose form a text has. -/
def kind (t : Text) : Kind := (Kind.all.find? t.hasForm).getD .literal

end Text

namespace Value

/-- A non-empty list of lists. -/
def isMatrix (items : List Value) : Bool := !items.isEmpty && items.all isList

/-- The kind of a value. -/
def kind : Value → Kind
  | .text t => Text.kind t
  | .bool _ => .boolean
  | .number _ => .number
  | .list items => if isMatrix items then .matrix else .array
  | .null | .object _ => .literal

/-- Has a value the given kind? For a raw text only the form that goes with the kind is
looked at; a text is a literal if it has no other form. -/
def isA (v : Value) (k : Kind) : Bool :=
  match v, k with
  | .text t, .literal => Text.kind t == .literal
  | .text t, k => t.hasForm k
  | v, k => v.kind == k

end Value

end StackScript
