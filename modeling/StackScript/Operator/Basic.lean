import StackScript.Text.Basic

/-! # Operators

The operators that change the top of the stack. `EVAL` is written like an operator, but it
runs what it pops and so belongs to the evaluation itself.
-/

namespace StackScript

/-- The relations that compare two values. -/
inductive Relation where
  | equal
  | unequal
  | greater
  | less
  | atLeast
  | atMost
  deriving DecidableEq, Repr

/-- The operations on two numbers. -/
inductive Arithmetic where
  | add
  | subtract
  | multiply
  | divide
  | power
  | modulo
  deriving DecidableEq, Repr

/-- The operators with a fixed effect on the stack. -/
inductive Operator where
  | arithmetic (operation : Arithmetic)
  | drop
  | dup
  | swap
  | rot
  | roll
  | rollDown
  | compare (relation : Relation)
  /-- The sign of a comparison: -1, 0 or 1. -/
  | order
  | and
  | or
  | xor
  | ifElse
  | shiftLeft
  | shiftRight
  | not
  | complement
  | cross
  | transpose
  deriving DecidableEq, Repr

/-- How a relation is written. -/
def Relation.name : Relation → String
  | .equal => "=="
  | .unequal => "!="
  | .greater => ">"
  | .less => "<"
  | .atLeast => ">="
  | .atMost => "<="

/-- How an operation is written. -/
def Arithmetic.name : Arithmetic → String
  | .add => "+"
  | .subtract => "-"
  | .multiply => "*"
  | .divide => "/"
  | .power => "**"
  | .modulo => "%"

namespace Operator

/-- How an operator is written. -/
def name : Operator → String
  | .arithmetic operation => operation.name
  | .drop => "DROP"
  | .dup => "DUP"
  | .swap => "SWAP"
  | .rot => "ROT"
  | .roll => "ROLL"
  | .rollDown => "ROLLD"
  | .compare relation => relation.name
  | .order => "<=>"
  | .and => "&"
  | .or => "|"
  | .xor => "^"
  | .ifElse => "IFELSE"
  | .shiftLeft => "<<"
  | .shiftRight => ">>"
  | .not => "!"
  | .complement => "~"
  | .cross => "x"
  | .transpose => "TRANSP"

/-- All operators. -/
def all : List Operator :=
  [.arithmetic .add, .arithmetic .subtract, .arithmetic .multiply, .arithmetic .divide,
   .arithmetic .power, .arithmetic .modulo, .drop, .dup, .swap, .rot, .roll, .rollDown,
   .compare .equal, .compare .unequal, .compare .greater, .compare .less, .compare .atLeast,
   .compare .atMost, .order, .and, .or, .xor, .ifElse, .shiftLeft, .shiftRight, .not,
   .complement, .cross, .transpose]

/-- Finds an operator by how it is written. -/
def ofName? (name : Text) : Option Operator :=
  all.find? fun operator => operator.name.toList == name

end Operator

/-- The word that pops a value and runs it. -/
def evalWord : Text := "EVAL".toList

/-- Is the text the name of an operator, `EVAL` included? -/
def isOperatorName (t : Text) : Bool := (Operator.ofName? t).isSome || t == evalWord

end StackScript
