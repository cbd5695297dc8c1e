import StackScript.Operator.Operation

/-! # What operators do

An operator pops its operands and pushes its results. If it fails, the operands stay popped:
putting them back is the business of whoever runs it.
-/

namespace StackScript

/-- A stack after an operator, and why the operator failed if it did. -/
structure Applied where
  stack : Stack
  fault : Option Fault := none

namespace Operator

/-- Replaces the top slot. -/
def unary (op : Operator) (f : Value → Except Fault Value) : Stack → Applied
  | a :: rest =>
      match f a with
      | .ok v => ⟨v :: rest, none⟩
      | .error fault => ⟨rest, some fault⟩
  | s => ⟨s, some (.underflow op 1 s.length)⟩

/-- Replaces the top two slots, of which `f` is given the lower one first. -/
def binary (op : Operator) (f : Value → Value → Except Fault Value) : Stack → Applied
  | a :: b :: rest =>
      match f b a with
      | .ok v => ⟨v :: rest, none⟩
      | .error fault => ⟨rest, some fault⟩
  | s => ⟨s, some (.underflow op 2 s.length)⟩

/-- Exchanges the top two slots. -/
def swapTop : Stack → Applied
  | a :: b :: rest => ⟨b :: a :: rest, none⟩
  | s => ⟨s, some (.underflow .swap 2 s.length)⟩

/-- Brings the third slot to the top. -/
def rotateTop : Stack → Applied
  | c :: b :: a :: rest => ⟨a :: c :: b :: rest, none⟩
  | s => ⟨s, some (.underflow .rot 3 s.length)⟩

/-- Keeps the second slot if the condition on top holds, else the third one. -/
def choose (depth : Nat) : Stack → Applied
  | condition :: a :: b :: rest =>
      match condition.toBool depth with
      | .ok true => ⟨b :: rest, none⟩
      | .ok false => ⟨a :: rest, none⟩
      | .error fault => ⟨rest, some fault⟩
  | s => ⟨s, some (.underflow .ifElse 3 s.length)⟩

/-- Brings the lowest of the first `count` slots to the top. -/
def raise (count : Nat) (s : Stack) : Stack :=
  let moved := s.take count
  moved.drop (count - 1) ++ moved.take (count - 1) ++ s.drop count

/-- Takes the top slot below the other first `count - 1` ones. -/
def lower (count : Nat) (s : Stack) : Stack :=
  let moved := s.take count
  moved.drop 1 ++ moved.take 1 ++ s.drop count

/-- Pops a count and moves that many slots. Nothing moves unless there are that many. -/
def rollBy (depth : Nat) (move : Nat → Stack → Stack) : Stack → Applied
  | [] => ⟨[], none⟩
  | top :: rest =>
      match top.toInt depth with
      | .ok count =>
          if 0 < count && count ≤ rest.length then ⟨move count.toNat rest, none⟩
          else ⟨rest, none⟩
      | .error fault => ⟨rest, some fault⟩

/-- Runs an operator on a stack, with `depth` nested calls left. -/
def apply (depth : Nat) (op : Operator) (s : Stack) : Applied :=
  match op with
  | .arithmetic .add => binary op (Operation.add depth) s
  | .arithmetic .multiply => binary op (Operation.multiply depth) s
  | .arithmetic operation => binary op (Operation.arithmetic depth operation) s
  | .drop => ⟨s.drop 1, none⟩
  | .dup => ⟨s.take 1 ++ s, none⟩
  | .swap => swapTop s
  | .rot => rotateTop s
  | .roll => rollBy depth raise s
  | .rollDown => rollBy depth lower s
  | .compare relation =>
      binary op (fun b a => do
        return .bool (← relation.decide (← Comparands.of depth b a))) s
  | .order => binary op (Operation.order depth) s
  | .and => binary op (Operation.and depth) s
  | .or => binary op (Operation.or depth) s
  | .xor => binary op (Operation.exclusiveOr depth) s
  | .ifElse => choose depth s
  | .shiftLeft => binary op (Operation.shiftLeft depth) s
  | .shiftRight => binary op (Operation.shiftRight depth) s
  | .not => unary op (fun v => do
      return .text (Text.ofBool !(← v.toBool depth))) s
  | .complement => unary op (fun v => do return Value.ofInt (~~~(← v.toInt depth))) s
  | .cross => binary op (Operation.crossProduct depth) s
  | .transpose => unary op (Operation.transposed depth) s

/-- Runs the operator of that name. -/
def applyNamed (depth : Nat) (name : Text) (s : Stack) : Applied :=
  match ofName? name with
  | some op => op.apply depth s
  | none => ⟨s, some (.notAnOperator name)⟩

end Operator

end StackScript
