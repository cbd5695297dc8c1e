import StackScript.Number.Basic

/-! # Comparison of numbers

An integer and a double are compared by their exact values. What is not a number has no
order with anything, itself included.
-/

namespace StackScript.Number

/-- How two numbers compare, if they do. -/
def compare? : Number → Number → Option Ordering
  | .int m, .int n => some (Ord.compare m n)
  | .int m, .float y => if y.isNaN then none else some (Binary64.compareInt m y)
  | .float x, .int n => if x.isNaN then none else some (Binary64.compareInt n x).swap
  | .float x, .float y =>
      if x < y then some .lt else if x == y then some .eq else if y < x then some .gt else none

/-- Is `a` less than `b`? -/
def lt (a b : Number) : Bool := compare? a b == some .lt

/-- Is `a` greater than `b`? -/
def gt (a b : Number) : Bool := compare? a b == some .gt

/-- Is `a` less than `b` or equal to it? -/
def le (a b : Number) : Bool := lt a b || compare? a b == some .eq

/-- The first of the numbers that no later one exceeds. One that is not a number exceeds
nothing, so it counts only in the first place. -/
def maximum : List Number → Number
  | [] => .int 0
  | first :: rest => rest.foldl (fun best n => if gt n best then n else best) first

end StackScript.Number
