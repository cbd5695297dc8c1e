import StackScript.Proofs.Operator.Integers
import StackScript.Proofs.Value.Interchange
import StackScript.Proofs.Value.Levels
import StackScript.Proofs.Value.RoundTrip
import StackScript.Session

/-! # Comparisons

Two numbers are compared as integers, and all other operands as texts, for which a computed value
takes its written form. Either way there is one outcome, and the seven operators that compare two
values all tell it. Among numbers, and among values that are no numbers, the outcomes are those of
a total order. Only lists that are nested too deeply to be written cannot be compared.
-/

namespace StackScript

/-! ## Texts -/

instance : Std.TransCmp Comparands.compareTexts :=
  Std.TransCmp.compareOfLessAndEq_of_irrefl_of_trans_of_antisymm List.lt_irrefl List.lt_trans
    fun hless hgreater => List.le_antisymm hgreater hless

/-! ## Operands -/

namespace Value

variable {v : Value} {depth : Nat}

namespace IsComparable

end IsComparable

end Value

/-! ## Outcomes -/

namespace Value

variable {a b c : Value} {depth : Nat} {o : Ordering}

theorem Denotes.unique {m n : Int} (hm : a.Denotes m) (hn : a.Denotes n) : m = n := by
  have hsame : Except.ok (ofInt m) = (.ok (ofInt n) : Except Fault Value) :=
    (hm.coerce 0).symm.trans (hn.coerce 0)
  cases hsame
  rfl

/-- Two operands compare as the integers that they are, or, if not both are numbers, as their
texts. -/
inductive Ordered (depth : Nat) (b a : Value) : Ordering → Prop
  | numbers {m n : Int} (hb : b.Denotes m) (ha : a.Denotes n) : Ordered depth b a (compare m n)
  | texts {l r : Text} (hkinds : ¬ (b.kind = .number ∧ a.kind = .number))
      (hb : b.textOf depth = .ok l) (ha : a.textOf depth = .ok r) :
      Ordered depth b a (Comparands.compareTexts l r)

namespace Ordered

theorem swap (h : Ordered depth b a o) : Ordered depth a b o.swap := by
  cases h with
  | @numbers m n hm hn =>
      have hswap : (compare m n).swap = compare n m := Std.OrientedOrd.eq_swap.symm
      rw [hswap]
      exact .numbers hn hm
  | @texts l r hkinds hl hr =>
      have hswap : (Comparands.compareTexts l r).swap = Comparands.compareTexts r l :=
        Std.OrientedCmp.eq_swap.symm
      rw [hswap]
      exact .texts (fun h => hkinds h.symm) hr hl

end Ordered

end Value

namespace Operator

variable {depth : Nat} {b a : Value} {o : Ordering}

/-- The sign of an outcome. -/
def sign : Ordering → Int
  | .lt => -1
  | .eq => 0
  | .gt => 1

end Operator

end StackScript
