import Mathlib.Algebra.BigOperators.Group.List.Basic
import Mathlib.Algebra.Order.Ring.Int
import StackScript.Matrix
import StackScript.Proofs.Simulation.Alike

/-! # Words hold what they are chosen for

Sums of integer products are computed with words only if neither an operand nor any sum can
leave their range. What wraps around on the way does not matter then: a word that stands for
a sum up to multiples of its size stands for the sum.
-/

namespace StackScript

/-! ## Integers among numbers -/

namespace Number

theorem mul_int (m n : Int) : mul (.int m) (.int n) = .ok (.int (m * n)) := rfl

theorem gt_int_iff (m n : Int) : gt (.int m) (.int n) = true ↔ n < m := by
  simp [gt, compare?, Int.compare_eq_gt]

theorem le_int_iff (m n : Int) : le (.int m) (.int n) = true ↔ m ≤ n := by
  simp only [le, lt, compare?, Bool.or_eq_true, beq_iff_eq, Option.some.injEq,
    Int.compare_eq_lt, Int.compare_eq_eq]
  omega

end Number

namespace Precision

/-! ## Magnitudes -/

/-- The greatest magnitude among integers. -/
def largest (xs : List Int) : Nat := (xs.map Int.natAbs).foldl max 0

theorem natAbs_le_largest {xs : List Int} {x : Int} (hx : x ∈ xs) : x.natAbs ≤ largest xs := by
  rw [largest, List.foldl_max]
  exact (List.le_max?_getD_of_mem (List.mem_map_of_mem hx)).trans (le_max_right _ _)

theorem foldl_gt_int (best : Nat) (xs : List Nat) :
    (xs.map fun x : Nat => Number.int x).foldl (fun best n => if Number.gt n best then n else best)
      (.int best) = .int (xs.foldl max best : Nat) := by
  induction xs generalizing best with
  | nil => rfl
  | cons x rest ih =>
      have hstep : (if Number.gt (.int x) (.int best) then Number.int x else .int best) =
          .int (max best x : Nat) := by
        simp only [Number.gt_int_iff, Int.ofNat_lt]
        split
        next hless => rw [Nat.max_eq_right hless.le]
        next hless => rw [Nat.max_eq_left (Nat.le_of_not_lt hless)]
      rw [List.map_cons, List.foldl_cons, hstep, ih, List.foldl_cons]

theorem magnitude_int (xs : List Int) : magnitude (xs.map .int) = .int (largest xs) := by
  cases xs with
  | nil => rfl
  | cons x rest =>
      have habs : (rest.map Number.int).map Number.abs =
          (rest.map Int.natAbs).map fun x : Nat => Number.int x := by
        simp [Number.abs]
      rw [magnitude, List.map_cons, List.map_cons, habs, Number.maximum, Number.abs, foldl_gt_int,
        largest, List.map_cons, List.foldl_cons, Nat.zero_max]

/-! ## The choice of a precision -/

/-- A precision that keeps sums of `terms` products exact: it is exact itself, or the operands
and a bound on the sums lie within the range of words. -/
inductive Keeps (left right : List Int) (terms : Nat) : Precision → Prop
  | exact : Keeps left right terms .exact
  | words (hbound : largest left * largest right * max terms 1 < 2 ^ 63)
      (hleft : largest left < 2 ^ 63) (hright : largest right < 2 ^ 63) :
      Keeps left right terms .words

theorem wordLimit_eq : wordLimit = .int (2 ^ 63 - 1) := rfl

theorem le_wordLimit_iff (n : Nat) : Number.le (.int n) wordLimit = true ↔ n < 2 ^ 63 := by
  rw [wordLimit_eq, Number.le_int_iff]
  omega

theorem gt_wordLimit_iff (n : Nat) : Number.gt (.int n) wordLimit = true ↔ 2 ^ 63 ≤ n := by
  rw [wordLimit_eq, Number.gt_int_iff]
  omega

theorem ofEntries_int (xs : List Int) : ofEntries (xs.map .int) = .words := by
  simp [ofEntries, isFloat]

theorem ofProduct_int (left right : List Int) (terms : Nat) :
    ∃ precision, ofProduct (left.map .int) (right.map .int) terms = .ok precision ∧
      precision.Keeps left right terms := by
  have hbound : Number.int ((largest left : Int) * largest right * (max terms 1 : Nat)) =
      .int (largest left * largest right * max terms 1 : Nat) := by
    simp
  rw [ofProduct, magnitude_int, magnitude_int, Number.mul_int, ok_bind, Number.mul_int, ok_bind,
    hbound, ← List.map_append, ofEntries_int]
  simp only [Bool.and_eq_true, le_wordLimit_iff]
  split
  next h => exact ⟨.words, rfl, .words h.1.1 h.1.2 h.2⟩
  next => exact ⟨.exact, rfl, .exact⟩

/-- An integer that is held as a word lies within the range of words. -/
theorem natAbs_lt_of_keeps_words {left right : List Int} {terms : Nat}
    (hkeeps : Keeps left right terms .words) {x : Int} (hx : x ∈ left ++ right) :
    x.natAbs < 2 ^ 63 := by
  cases hkeeps with
  | words _ hleft hright =>
      rcases List.mem_append.mp hx with hx | hx
      · exact (natAbs_le_largest hx).trans_lt hleft
      · exact (natAbs_le_largest hx).trans_lt hright

/-! ## Sums of products -/

theorem natAbs_sum_zipWith_le {xs ys : List Int} {a b : Nat} (hxs : ∀ x ∈ xs, x.natAbs ≤ a)
    (hys : ∀ y ∈ ys, y.natAbs ≤ b) :
    (List.zipWith (· * ·) xs ys).sum.natAbs ≤ a * b * min xs.length ys.length := by
  induction xs generalizing ys with
  | nil => simp
  | cons x xs ih =>
      cases ys with
      | nil => simp
      | cons y ys =>
          obtain ⟨hx, hxs⟩ := List.forall_mem_cons.mp hxs
          obtain ⟨hy, hys⟩ := List.forall_mem_cons.mp hys
          have hhead : (x * y).natAbs ≤ a * b := by
            rw [Int.natAbs_mul]
            exact Nat.mul_le_mul hx hy
          have htail := ih hxs hys
          have htotal := Int.natAbs_add_le (x * y) (List.zipWith (· * ·) xs ys).sum
          rw [List.zipWith_cons_cons, List.sum_cons, List.length_cons, List.length_cons,
            Nat.add_min_add_right, Nat.mul_add_one]
          omega

/-- Words add up like the integers that they stand for. -/
theorem foldl_ofInt (start : Int) (xs : List Int) :
    (xs.map Int64.ofInt).foldl (· + ·) (Int64.ofInt start) = Int64.ofInt (start + xs.sum) := by
  induction xs generalizing start with
  | nil => simp
  | cons x rest ih =>
      rw [List.map_cons, List.foldl_cons, ← Int64.ofInt_add, ih, List.sum_cons, Int.add_assoc]

theorem toInt_ofInt_of_natAbs_lt {n : Int} (hn : n.natAbs < 2 ^ 63) :
    (Int64.ofInt n).toInt = n := Int64.toInt_ofInt_of_le (by omega) (by omega)

theorem dot_words {xs ys : List Int}
    (hsum : (List.zipWith (· * ·) xs ys).sum.natAbs < 2 ^ 63) :
    dot (xs.map .int) (ys.map .int) .words =
      .ok (.int (List.zipWith (· * ·) xs ys).sum) := by
  have hproducts : List.zipWith (fun x y => toWord x * toWord y) (xs.map .int) (ys.map .int) =
      (List.zipWith (· * ·) xs ys).map Int64.ofInt := by
    simp only [List.zipWith_map, List.map_zipWith, toWord, Int64.ofInt_mul]
  have hfold := foldl_ofInt 0 (List.zipWith (· * ·) xs ys)
  rw [Int.zero_add] at hfold
  simp only [dot, hproducts]
  rw [show (0 : Int64) = Int64.ofInt 0 from rfl, hfold, toInt_ofInt_of_natAbs_lt hsum]

theorem dot_exact (xs ys : List Int) :
    dot (xs.map .int) (ys.map .int) .exact = .ok (.int (List.zipWith (· * ·) xs ys).sum) := by
  have hfold (start : Int) : (List.zip (xs.map Number.int) (ys.map .int)).foldlM
      (fun sum pair => do Number.add sum (← Number.mul pair.1 pair.2)) (.int start) =
        (.ok (.int (start + (List.zipWith (· * ·) xs ys).sum)) : Except Fault Number) := by
    induction xs generalizing ys start with
    | nil => simp; rfl
    | cons x xs ih =>
        cases ys with
        | nil => simp; rfl
        | cons y ys =>
            rw [List.zipWith_cons_cons, List.sum_cons, ← Int.add_assoc]
            exact ih ys (start + x * y)
  simp only [dot, hfold, Int.zero_add]
  rfl

/-- A precision chosen for two collections of integers keeps the products of parts of them. -/
theorem Keeps.dot_eq {left right xs ys : List Int} {terms : Nat} {precision : Precision}
    (hkeeps : precision.Keeps left right terms) (hxs : xs ⊆ left) (hys : ys ⊆ right)
    (hterms : min xs.length ys.length ≤ terms) :
    precision.dot (xs.map .int) (ys.map .int) = .ok (.int (List.zipWith (· * ·) xs ys).sum) := by
  cases hkeeps with
  | exact => exact dot_exact xs ys
  | words hbound =>
      apply dot_words
      calc (List.zipWith (· * ·) xs ys).sum.natAbs
          ≤ largest left * largest right * min xs.length ys.length :=
            natAbs_sum_zipWith_le (fun x hx => natAbs_le_largest (hxs hx))
              fun y hy => natAbs_le_largest (hys hy)
        _ ≤ largest left * largest right * max terms 1 :=
            Nat.mul_le_mul_left _ (hterms.trans (Nat.le_max_left _ _))
        _ < 2 ^ 63 := hbound

theorem Keeps.crossEntry_eq {left right : List Int} {precision : Precision}
    (hkeeps : precision.Keeps left right 2) {a b c d : Int} (ha : a ∈ left) (hb : b ∈ right)
    (hc : c ∈ left) (hd : d ∈ right) :
    precision.crossEntry (.int a) (.int b) (.int c) (.int d) = .ok (.int (a * b - c * d)) := by
  cases hkeeps with
  | exact => rfl
  | words hbound =>
      have hfirst : (a * b).natAbs ≤ largest left * largest right := by
        rw [Int.natAbs_mul]
        exact Nat.mul_le_mul (natAbs_le_largest ha) (natAbs_le_largest hb)
      have hsecond : (c * d).natAbs ≤ largest left * largest right := by
        rw [Int.natAbs_mul]
        exact Nat.mul_le_mul (natAbs_le_largest hc) (natAbs_le_largest hd)
      have hrange : (a * b - c * d).natAbs < 2 ^ 63 := by
        have htwo : max 2 1 = 2 := rfl
        rw [htwo] at hbound
        have hdifference := Int.natAbs_sub_le (a * b) (c * d)
        omega
      simp only [crossEntry, toWord, ← Int64.ofInt_mul, ← Int64.ofInt_sub,
        toInt_ofInt_of_natAbs_lt hrange]

/-- The precision at which entries are moved. -/
def ofMoved (entries : List Number) : Precision :=
  if Number.gt (magnitude entries) wordLimit then .exact else ofEntries entries

theorem carry_words {x : Int} (hx : x.natAbs < 2 ^ 63) :
    carry (.int x) .words = .ok (.int x) := by
  simp only [carry, toWord, toInt_ofInt_of_natAbs_lt hx]

theorem natAbs_lt_of_magnitude {xs : List Int} {x : Int}
    (hsmall : Number.gt (magnitude (xs.map .int)) wordLimit = false) (hx : x ∈ xs) :
    x.natAbs < 2 ^ 63 := by
  rw [magnitude_int, Bool.eq_false_iff, ne_eq, gt_wordLimit_iff, not_le] at hsmall
  exact (natAbs_le_largest hx).trans_lt hsmall

end Precision

end StackScript
