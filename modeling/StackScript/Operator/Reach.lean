import StackScript.Operator.Apply

/-! # Reach

The reach of an operator is the number of top slots that it may pop or replace. Saving these
is enough to undo it.
-/

namespace StackScript.Operator

/-- How many slots an operator takes at most; for the two that move a counted number of
slots, the count alone. -/
def arity : Operator → Nat
  | .dup | .drop | .not | .complement | .transpose => 1
  | .roll | .rollDown => 1
  | .rot | .ifElse => 3
  | _ => 2

/-- How many slots a count on top of the stack moves, itself included. -/
def countedReach (depth : Nat) (s : Stack) : Except Fault Nat :=
  match s with
  | [] => .ok 0
  | top :: rest => do
      let count ← top.toInt depth
      return if 0 < count && count ≤ rest.length then count.toNat + 1 else 1

/-- The number of top slots that the operator may touch. -/
def reach (depth : Nat) (op : Operator) (s : Stack) : Except Fault Nat :=
  match op with
  | .roll | .rollDown => countedReach depth s
  | op => .ok (min op.arity s.length)

/-- The reach of the operator of that name. Any other name may touch the whole stack. -/
def reachNamed (depth : Nat) (name : Text) (s : Stack) : Except Fault Nat :=
  match ofName? name with
  | some op => op.reach depth s
  | none => .ok s.length

end StackScript.Operator
