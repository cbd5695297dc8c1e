import Mathlib.Data.Nat.Factorial.Basic
import StackScript.Proofs.Operator.Integers
import StackScript.Proofs.Session.Success

/-! # Factorials by self-reference

A lambda multiplies an accumulator by a counter, counts down, and runs itself again while the
counter is positive. The word that it runs last is chosen by the counter: the text of the
lambda itself, or the operator that drops the counter.
-/

namespace StackScript

namespace Lambda

/-- The lambda that multiplies an accumulator by the factorial of a counter above it. -/
def factorial : Text :=
  "\x7b 2 | x0 x1 * x1 1 - DUP 0 > SELF 'DROP ROT IFELSE EVAL\x7d".toList

/-- The words of its body. -/
def factorialBody : List Text :=
  ["x0".toList, "x1".toList, "*".toList, "x1".toList, "1".toList, "-".toList, "DUP".toList,
    "0".toList, ">".toList, "SELF".toList, "'DROP".toList, "ROT".toList, "IFELSE".toList,
    "EVAL".toList]

/-- What the lambda leaves of an accumulator and a counter. -/
def factorialResult (a n : Int) : Int := if 1 ≤ n then a * n.toNat.factorial else a * n

/-- The value that one round runs at its end, by the counter that it found. -/
def factorialBranch (n : Int) : Value := .text (if 0 < n - 1 then factorial else "DROP".toList)

theorem texts_factorial : Token.texts factorial = [factorial] := by decide +kernel

theorem read_factorial : Lambda.read factorial = .ok ⟨factorial, 2, factorialBody⟩ := by
  have hparts : parts? factorial =
      some ("2 ".toList, " x0 x1 * x1 1 - DUP 0 > SELF 'DROP ROT IFELSE EVAL".toList) := by
    decide +kernel
  have hbody : Token.texts " x0 x1 * x1 1 - DUP 0 > SELF 'DROP ROT IFELSE EVAL".toList =
      factorialBody := by decide +kernel
  rw [Lambda.read, hparts]
  simp only [hbody]
  rfl

theorem kind_factorial : Text.kind factorial = .lambda := by decide +kernel

theorem head?_factorial : factorial.head? ≠ some Evaluation.quoteMark := by decide

theorem factorialResult_of_le_one {n : Int} (hn : n ≤ 1) (a : Int) :
    factorialResult a n = a * n := by
  unfold factorialResult
  split
  next hone =>
    obtain rfl : n = 1 := by omega
    rfl
  next => rfl

/-- One round takes a factor off the factorial. -/
theorem factorialResult_round {n : Int} (hn : 1 < n) (a : Int) :
    factorialResult (a * n) (n - 1) = factorialResult a n := by
  obtain ⟨k, rfl⟩ : ∃ k : Nat, n = k + 1 := ⟨(n - 1).toNat, by omega⟩
  have hpred : ((k : Int) + 1 - 1).toNat = k := by omega
  have hsucc : ((k : Int) + 1).toNat = k + 1 := by omega
  rw [factorialResult, factorialResult, if_pos (by omega), if_pos (by omega), hpred, hsucc,
    Nat.factorial_succ]
  push_cast
  exact Int.mul_assoc a (k + 1) k.factorial

end Lambda

namespace Evaluation

open Lambda Value

variable {depth line : Nat} {acc counter : Value} {a n : Int} {below s : Stack}

/-- A counter that is lowered and compared with zero chooses the branch. -/
theorem choose_factorialBranch (depth : Nat) (n : Int) (below : Stack) :
    Operator.ifElse.apply depth
        (.bool (decide (0 < n - 1)) :: .text "DROP".toList :: .text factorial :: below) =
      ⟨factorialBranch n :: below, none⟩ := by
  rw [Operator.apply, Operator.choose_cons]
  by_cases hn : 0 < n - 1
  · rw [decide_eq_true hn, factorialBranch, if_pos hn]
    rfl
  · rw [decide_eq_false hn, factorialBranch, if_neg hn]
    rfl

/-- One round leaves the product and the lowered counter, and runs the branch to take. -/
theorem call_factorial_round (hacc : acc.Denotes a) (hcounter : counter.Denotes n)
    (hlast : (runNested line depth (factorialBranch n)
      (.ofInt (n - 1) :: .ofInt (a * n) :: below)).Reaches s) :
    (call (runNested line (depth + 4)) factorial (counter :: acc :: below)).Reaches s := by
  have hone : (Value.text "1".toList).Denotes 1 :=
    .numeral false (by decide) (by decide)
  have hzero : (Value.text "0".toList).Denotes 0 :=
    .numeral false (by decide) (by decide)
  have hbind : Lambda.bind? 2 (counter :: acc :: below) = some ([acc, counter], below) := by
    simp [Lambda.bind?]
  refine call_reaches read_factorial hbind ?_
  have hoperator (op : Operator) {rest t : Stack} (hop : op.apply depth rest = ⟨t, none⟩) :
      (runBodyWord (runNested line (depth + 4)) factorial [acc, counter] op.name.toList
        rest).Reaches t :=
    runBodyWord_reaches_nested (Or.inr (by rw [op.kind_name]; decide))
      (runNested_reaches_operator op hop)
  -- the product
  refine runWords_reaches_cons (runBodyWord_reaches_parameter rfl rfl) ?_
  refine runWords_reaches_cons (runBodyWord_reaches_parameter rfl rfl) ?_
  refine runWords_reaches_cons (hoperator (.arithmetic .multiply)
    (Operator.multiply_apply hacc hcounter _ _)) ?_
  -- the lowered counter, and whether it is positive
  refine runWords_reaches_cons (runBodyWord_reaches_parameter rfl rfl) ?_
  refine runWords_reaches_cons (runBodyWord_reaches_nested (Or.inr (by decide))
    (runNested_reaches_plain (by decide) (by decide))) ?_
  refine runWords_reaches_cons (hoperator (.arithmetic .subtract)
    (Operator.subtract_apply hcounter hone _ _)) ?_
  refine runWords_reaches_cons (hoperator .dup rfl) ?_
  refine runWords_reaches_cons (runBodyWord_reaches_nested (Or.inr (by decide))
    (runNested_reaches_plain (by decide) (by decide))) ?_
  refine runWords_reaches_cons (hoperator (.compare .greater)
    (Operator.greater_apply (.computed _) hzero _ _)) ?_
  -- the two branches, and the one that the counter chooses
  refine runWords_reaches_cons runBodyWord_reaches_self ?_
  refine runWords_reaches_cons (runBodyWord_reaches_nested (Or.inl rfl)
    (runNested_reaches_quoted _)) ?_
  refine runWords_reaches_cons (hoperator .rot rfl) ?_
  refine runWords_reaches_cons (hoperator .ifElse (choose_factorialBranch depth n _)) ?_
  refine runWords_reaches_cons (runBodyWord_reaches_nested (Or.inr (by decide))
    (runNested_reaches_eval hlast)) ?_
  exact .of_stack s

/-- With eight nested calls for each round, the lambda computes the factorial, whatever lies
below its operands. -/
theorem call_factorial (line : Nat) (below : Stack) (hacc : acc.Denotes a)
    (hcounter : counter.Denotes n) (hdepth : 8 * max 1 n.toNat ≤ depth) :
    (call (runNested line depth) factorial (counter :: acc :: below)).Reaches
      (.ofInt (factorialResult a n) :: below) := by
  obtain ⟨left, rfl⟩ : ∃ left, depth = left + 8 := ⟨depth - 8, by omega⟩
  induction hrounds : (n - 1).toNat generalizing acc counter a n left with
  | zero =>
      have hstop : factorialBranch n = .text "DROP".toList := by
        rw [factorialBranch, if_neg (by omega)]
      refine call_factorial_round hacc hcounter ?_
      rw [hstop, factorialResult_of_le_one (by omega)]
      exact runNested_reaches_operator .drop rfl
  | succ rounds ih =>
      have hagain : factorialBranch n = .text factorial := by
        rw [factorialBranch, if_pos (by omega)]
      obtain ⟨left, rfl⟩ : ∃ further, left = further + 8 := ⟨left - 8, by omega⟩
      have hrest := ih (.computed (a * n)) (.computed (n - 1)) left (by omega) (by omega)
      rw [factorialResult_round (by omega)] at hrest
      obtain ⟨hreach, hrun⟩ := runText_reaches_lambda left head?_factorial
        kind_factorial hrest
      refine call_factorial_round hacc hcounter ?_
      rw [hagain]
      exact runNested_reaches hreach hrun

end Evaluation

namespace Session

open Evaluation

/-- On a stack with an accumulator `a` and a counter `n` on top, the lambda leaves the product
of `a` and the factorial of `n`, or the product of `a` and `n` if `n` is not positive, provided
that eight calls may be nested for each round. What lies below stays, the line is a single
word that succeeds, and nothing is skipped. -/
theorem runLine_factorial (session : Session) (below : Stack) {acc counter : Value} {a n : Int}
    (hacc : acc.Denotes a) (hcounter : counter.Denotes n)
    (hstack : session.stack = counter :: acc :: below)
    (hlimit : 8 * max 1 n.toNat ≤ session.limit) :
    ∃ after,
      session.runLine Lambda.factorial =
        (after, .ok [⟨Lambda.factorial, session.lineCount + 1, none⟩]) ∧
      after.stack = .ofInt (if 1 ≤ n then a * n.toNat.factorial else a * n) :: below ∧
      session.newlySkipped after = [] := by
  have hcall := call_factorial (session.lineCount + 1) below hacc hcounter hlimit
  rw [← hstack] at hcall
  exact runLine_reaches_lambda Lambda.texts_factorial Lambda.head?_factorial Lambda.kind_factorial
    hcall

theorem runLine_factorial_five :
    let session : Session :=
      { stack := [.text "005".toList, .text "-2".toList, .bool true], limit := 40 }
    ∃ after,
      session.runLine Lambda.factorial = (after, .ok [⟨Lambda.factorial, 1, none⟩]) ∧
      after.stack = [.ofInt (-240), .bool true] ∧ session.newlySkipped after = [] := by
  have hacc : (Value.text "-2".toList).Denotes (-2) :=
    .numeral true (by decide) (by decide)
  have hcounter : (Value.text "005".toList).Denotes 5 :=
    .numeral false (by decide) (by decide)
  exact runLine_factorial _ [.bool true] hacc hcounter rfl (by decide)

end Session

end StackScript
