import StackScript.Matrix
import StackScript.Operator.Operand

/-! # Operations on values

What the operators compute from their operands. Of two operands the lower one on the stack
is given first.
-/

namespace StackScript.Operation

/-- The sum of two array elements: of numbers, of the contents of two texts, and of lists
element by element as far as both go. Every level of nesting takes two of the `depth` nested
calls that are left. -/
def addElements : (depth : Nat) → Value → Value → Except Fault Value
  | depth + 2, .list xs, .list ys => do
      return .list (← (List.zip xs ys).mapM fun pair => addElements depth pair.1 pair.2)
  | _, .list _, .list _ => .error .tooDeep
  | _, .number m, .number n => do return .number (← Arithmetic.add.apply m n)
  | _, .text t, .text u => .ok (.text (Text.content t ++ Text.content u))
  | depth, v, w => do .error (.unaddable (← v.inspect depth) (← w.inspect depth))

/-- An operation on two numbers. -/
def arithmetic (depth : Nat) (operation : Arithmetic) (b a : Value) : Except Fault Value := do
  let left ← b.asNumber depth (.arithmetic operation)
  let right ← a.asNumber depth (.arithmetic operation)
  return .number (← operation.apply left right)

/-- The content of a string literal. -/
def stringContent? : Value → Option Text
  | .text t => if Text.isStringLiteral t then some (Text.content t) else none
  | _ => none

/-- Arrays are added element by element and strings are joined; all else is arithmetic. -/
def add (depth : Nat) (b a : Value) : Except Fault Value := do
  let plus := Operator.arithmetic .add
  if a.isA .array && b.isA .array then
    let left ← b.asList depth plus .array
    let right ← a.asList depth plus .array
    addElements depth (.list left) (.list right)
  else match stringContent? b, stringContent? a with
    | some left, some right => return .text (Text.quote (left ++ right))
    | _, _ => arithmetic depth .add b a

/-- The greatest length of a text. -/
def lengthLimit : Nat := Nat.pow 2 63 - 1

/-- The text `count` times over, and nothing if `count` is negative. -/
def repeatText (t : Text) (count : Int) : Except Fault Text :=
  if (lengthLimit : Int) < count || count < -(lengthLimit : Int) - 1 then
    .error .repeatCountTooLarge
  else if 1 < count && lengthLimit / count.toNat < t.length then .error .repeatedTextTooLong
  else if Number.memoryBits < t.length * count.toNat then .error .outOfMemory
  else if t.isEmpty then .ok []
  else .ok (List.replicate count.toNat t).flatten

/-- Products of matrices and vectors, repetition of strings, and arithmetic. A matrix takes a
vector from above it; of two matrices the upper one is the left factor. -/
def multiply (depth : Nat) (b a : Value) : Except Fault Value := do
  let times := Operator.arithmetic .multiply
  if b.isA .matrix && a.isA .array then
    let matrix ← b.asList depth times .matrix
    let vector ← a.asList depth times .array
    Matrix.mulVector depth matrix vector
  else if a.isA .matrix && b.isA .matrix then
    let left ← a.asList depth times .matrix
    let right ← b.asList depth times .matrix
    Matrix.mul depth left right
  else if a.isA .array && b.isA .array then
    let left ← b.asList depth times .array
    let right ← a.asList depth times .array
    Matrix.dot depth left right
  else match stringContent? b, a.isA .number with
    | some content, true => do
        let count ← (← a.asNumber depth times).toInt
        return .text (Text.quote (← repeatText content count))
    | _, _ => arithmetic depth .multiply b a

/-- The sign of a comparison. -/
def order (depth : Nat) (b a : Value) : Except Fault Value := do
  let comparands ← Comparands.of depth b a
  let greater ← Relation.greater.decide comparands
  let less ← Relation.less.decide comparands
  return Value.ofInt (if greater then 1 else if less then -1 else 0)

/-- Conditions differ if both operands are truth values; else their bits are combined. -/
def exclusiveOr (depth : Nat) (b a : Value) : Except Fault Value := do
  if a.isA .boolean && b.isA .boolean then
    return .bool ((← b.toBool depth) != (← a.toBool depth))
  else return Value.ofInt (Number.xor (← b.toInt depth) (← a.toInt depth))

/-- The second condition is looked at only if the first one holds. -/
protected def and (depth : Nat) (b a : Value) : Except Fault Value := do
  if ← b.toBool depth then return .bool (← a.toBool depth) else return .bool false

/-- The second condition is looked at only if the first one does not hold. -/
protected def or (depth : Nat) (b a : Value) : Except Fault Value := do
  if ← b.toBool depth then return .bool true else return .bool (← a.toBool depth)

/-- Multiplies `b` by two to the power `a`. -/
def shiftLeft (depth : Nat) (b a : Value) : Except Fault Value := do
  return Value.ofInt (← Number.shift (← b.toInt depth) (← a.toInt depth))

/-- Divides `b` by two to the power `a`. -/
def shiftRight (depth : Nat) (b a : Value) : Except Fault Value := do
  return Value.ofInt (← Number.shift (← b.toInt depth) (-(← a.toInt depth)))

/-- The cross product of two arrays. -/
def crossProduct (depth : Nat) (b a : Value) : Except Fault Value := do
  let left ← b.asList depth .cross .array
  let right ← a.asList depth .cross .array
  Matrix.cross depth left right

/-- Exchanges rows and columns; what is no matrix stays as it is. -/
def transposed (depth : Nat) (v : Value) : Except Fault Value := do
  let converted ← if v.isA .matrix then v.coerce depth .matrix else pure .null
  match converted with
  | .list items => Matrix.transpose depth items
  | _ => return v

end StackScript.Operation
