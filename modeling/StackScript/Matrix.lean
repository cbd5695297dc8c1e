import StackScript.Number.Arithmetic
import StackScript.Value.Inspect

/-! # Vectors and matrices

Products of vectors and matrices whose entries are numbers. A sum of products is computed
with 64-bit words if no sum can leave their range, with doubles if moreover an entry is one,
and with exact integers otherwise. Results are normalized.
-/

namespace StackScript

/-- How the entries of a product are held while it is computed. -/
inductive Precision where
  /-- Words of 64 bits in two's complement, which wrap around. -/
  | words
  | doubles
  /-- Numbers as they are. -/
  | exact
  deriving DecidableEq, Repr

namespace Precision

/-- The greatest integer that a word holds. -/
def wordLimit : Number := .int (Int.pow 2 63 - 1)

/-- The magnitude of the largest entry. -/
def magnitude (entries : List Number) : Number := Number.maximum (entries.map Number.abs)

/-- Is the number a double? -/
def isFloat : Number → Bool
  | .float _ => true
  | .int _ => false

/-- The precision of machine arithmetic for these entries. -/
def ofEntries (entries : List Number) : Precision :=
  if entries.any isFloat then .doubles else .words

/-- The precision for sums of `terms` products of an entry of `left` and one of `right`. It
is exact unless a bound on such sums, and both operands, lie within the range of words. -/
def ofProduct (left right : List Number) (terms : Nat) : Except Fault Precision := do
  let product ← Number.mul (magnitude left) (magnitude right)
  let bound ← Number.mul product (.int (max terms 1 : Nat))
  if Number.le bound wordLimit && Number.le (magnitude left) wordLimit &&
      Number.le (magnitude right) wordLimit then
    return ofEntries (left ++ right)
  else return .exact

/-- An entry as a word. -/
def toWord : Number → Int64
  | .int n => Int64.ofInt n
  | .float x => x.toInt64

/-- The sum of the products of two rows. -/
def dot (left right : List Number) : Precision → Except Fault Number
  | .words =>
      let products := List.zipWith (fun x y => toWord x * toWord y) left right
      .ok (.int (products.foldl (· + ·) 0).toInt)
  | .doubles => do
      let xs ← left.mapM Number.toFloat
      let ys ← right.mapM Number.toFloat
      let products := List.zipWith (· * ·) xs ys
      return Number.normalize (.float (products.foldl (· + ·) 0))
  | .exact => do
      let sum ← (List.zip left right).foldlM
        (fun sum pair => do Number.add sum (← Number.mul pair.1 pair.2)) (.int 0)
      return sum.normalize

/-- The difference `a * b - c * d`. -/
def crossEntry (a b c d : Number) : Precision → Except Fault Number
  | .words => .ok (.int (toWord a * toWord b - toWord c * toWord d).toInt)
  | .doubles => do
      let difference := (← a.toFloat) * (← b.toFloat) - (← c.toFloat) * (← d.toFloat)
      return Number.normalize (.float difference)
  | .exact => do
      return (← Number.sub (← Number.mul a b) (← Number.mul c d)).normalize

/-- An entry that is only moved. -/
def carry (entry : Number) : Precision → Except Fault Number
  | .words => .ok (.int (toWord entry).toInt)
  | .doubles => do return Number.normalize (.float (← entry.toFloat))
  | .exact => .ok entry

end Precision

namespace Matrix

/-- The numbers at a place from position `index` on; anything else there is a fault. -/
def numbersFrom (depth : Nat) (place : Place) (index : Nat) :
    List Value → Except Fault (List Number)
  | [] => .ok []
  | .number n :: rest => do return n :: (← numbersFrom depth place (index + 1) rest)
  | v :: _ => do .error (.notNumeric place index (← v.inspect depth))

/-- The entries of a vector. -/
def entries (depth : Nat) (role : Role) (items : List Value) : Except Fault (List Number) :=
  numbersFrom depth ⟨role, none⟩ 0 items

/-- The rows from position `index` on, which must have `width` numbers each. -/
def rowsFrom (depth : Nat) (role : Role) (width index : Nat) :
    List (List Value) → Except Fault (List (List Number))
  | [] => .ok []
  | row :: rest => do
      if row.length ≠ width then .error (.raggedRow role index row.length width)
      else
        let numbers ← numbersFrom depth ⟨role, some index⟩ 0 row
        return numbers :: (← rowsFrom depth role width (index + 1) rest)

/-- The elements of a list. -/
def items? : Value → Option (List Value)
  | .list items => some items
  | _ => none

/-- The rows of a matrix, which are as long as the first one. -/
def rows (depth : Nat) (role : Role) (items : List Value) :
    Except Fault (List (List Number)) :=
  match items.mapM items? with
  | some (first :: rest) => rowsFrom depth role first.length 0 (first :: rest)
  | _ => .error (.notRows role)

/-- How many entries a row of the matrix has. -/
def width (m : List (List Number)) : Nat := (m.headD []).length

/-- The columns of a matrix with at least one row. -/
def columns : List (List Number) → List (List Number)
  | [] => []
  | [row] => row.map fun entry => [entry]
  | row :: rest => List.zipWith (· :: ·) row (columns rest)

/-- A vector as a value. -/
def vectorValue (entries : List Number) : Value := .list (entries.map .number)

/-- A matrix as a value. -/
def matrixValue (m : List (List Number)) : Value := .list (m.map vectorValue)

/-- The dot product over the positions that both vectors have. -/
def dot (depth : Nat) (left right : List Value) : Except Fault Value := do
  let terms := min left.length right.length
  let l ← entries depth .left (left.take terms)
  let r ← entries depth .right (right.take terms)
  return .number (← (← Precision.ofProduct l r terms).dot l r)

/-- A matrix times a column vector. -/
def mulVector (depth : Nat) (matrix vector : List Value) : Except Fault Value := do
  let m ← rows depth .matrix matrix
  let v ← entries depth .vector vector
  if width m ≠ v.length then .error (.widthMismatch (width m) v.length)
  else
    let precision ← Precision.ofProduct m.flatten v (width m)
    return vectorValue (← m.mapM fun row => precision.dot row v)

/-- The product of two matrices. -/
def mul (depth : Nat) (left right : List Value) : Except Fault Value := do
  let l ← rows depth .left left
  let r ← rows depth .right right
  if width l ≠ r.length then .error (.nonconformable l.length (width l) r.length (width r))
  else
    let precision ← Precision.ofProduct l.flatten r.flatten (width l)
    return matrixValue (← l.mapM fun row =>
      (columns r).mapM fun column => precision.dot row column)

/-- The matrix with rows and columns exchanged. -/
def transpose (depth : Nat) (matrix : List Value) : Except Fault Value := do
  let m ← rows depth .matrix matrix
  let precision :=
    if Number.gt (Precision.magnitude m.flatten) Precision.wordLimit then .exact
    else Precision.ofEntries m.flatten
  return matrixValue (columns (← m.mapM fun row => row.mapM fun entry => precision.carry entry))

/-- The cross product of two vectors in space. -/
def cross (depth : Nat) (left right : List Value) : Except Fault Value := do
  if left.length ≠ 3 || right.length ≠ 3 then
    .error (.notThreeElements left.length right.length)
  else
    let l ← entries depth .left left
    let r ← entries depth .right right
    let precision ← Precision.ofProduct l r 2
    match l, r with
    | [a1, a2, a3], [b1, b2, b3] =>
        return vectorValue
          [← precision.crossEntry a2 b3 a3 b2, ← precision.crossEntry a3 b1 a1 b3,
           ← precision.crossEntry a1 b2 a2 b1]
    | _, _ => .error (.notThreeElements l.length r.length)

end Matrix

namespace Value

mutual

/-- Normalizes a number, or all numbers of a list at any depth. -/
def normalize : Value → Value
  | .number n => .number n.normalize
  | .list items => .list (normalizeAll items)
  | v => v

/-- Normalizes each of the values. -/
def normalizeAll : List Value → List Value
  | [] => []
  | v :: rest => normalize v :: normalizeAll rest

end

end Value

end StackScript
