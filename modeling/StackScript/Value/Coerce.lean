import StackScript.Value.Render

/-! # Conversions

An operator converts an operand to the kind that it needs. A value that cannot be converted
stays as it is, so that a conversion fails only if the value is nested too deeply. A text
that is no matrix is the exception: it converts to the null value.
-/

namespace StackScript

/-- The content of a string literal; other texts are their own content. -/
def Text.content (t : Text) : Text :=
  if isDelimited '"' '"' t && 2 ≤ t.length then inner t else t

namespace Value

/-- Converts a value to a kind, or says why that fails. -/
def convert (depth : Nat) : Kind → Value → Except Fault Value
  | .matrix, .text t => do
      match ← Json.readList? depth t with
      | some items => return .list items
      | none => return .null
  | .number, .text t => do
      match ← Number.read? t with
      | some n => return .number n
      | none => return .text t
  | .string, .text t => .ok (.text (Text.content t))
  | .array, .text t => do return .list (← ArrayText.read depth t)
  | .boolean, .bool b => .ok (.bool b)
  | .boolean, v => do return .bool (Text.isTrue (← v.textOf depth))
  | _, v => .ok v

/-- Converts a value to a kind, or leaves it alone if that fails. -/
def coerce (depth : Nat) (v : Value) (k : Kind) : Except Fault Value :=
  match v.convert depth k with
  | .ok converted => .ok converted
  | .error fault => if fault.isConversionFailure then .ok v else .error fault

/-- Does a value count as true by itself? Zero, the null value and whatever is empty do not. -/
def isTruthy : Value → Bool
  | .text t => !t.isEmpty
  | .bool b => b
  | .null => false
  | .number (.int n) => n != 0
  | .number (.float x) => !(x == 0)
  | .list items => !items.isEmpty
  | .object fields => !fields.isEmpty

/-- A value as a condition. -/
def toBool (depth : Nat) (v : Value) : Except Fault Bool := do
  return (← v.coerce depth .boolean).isTruthy

/-- The sign and digits that a text begins with, after blanks. -/
def integerFront? (t : Text) : Option Text :=
  let t := t.dropWhile Text.isBlank
  let sign := match t with
    | '+' :: _ | '-' :: _ => t.take 1
    | _ => []
  let digits := (t.drop sign.length).takeWhile Char.isDigit
  if digits.isEmpty then none else some (sign ++ digits)

/-- The integer that a text begins with, or zero. -/
def leadingInt (t : Text) : Except Fault Int :=
  match integerFront? t with
  | some numeral => Number.readInt numeral
  | none => .ok 0

/-- A value as an integer. A finite number loses its fraction, and any other value is read
as far as its text begins like an integer. -/
def toInt (depth : Nat) : Value → Except Fault Int
  | .number (.int n) => .ok n
  | .number (.float x) => .ok ((Binary64.truncate? x).getD 0)
  | .text t => leadingInt (if Text.isStringLiteral t then Text.content t else t)
  | v => do leadingInt (← v.textOf depth)

end Value

end StackScript
