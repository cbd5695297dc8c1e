import StackScript.Proofs.Numeral.Integer
import StackScript.Proofs.Simulation.Operator

/-! # Operators on integers

An integer on the stack is a computed number or the numeral of one. To the operators on
numbers the two are the same, and what they compute from integers is exact.
-/

namespace StackScript

/-- The value is an integer: a computed one, or digits up to the limit, with or without a minus
sign, that spell it. -/
inductive Value.Denotes : Value → Int → Prop
  | computed (n : Int) : Denotes (.ofInt n) n
  | numeral (negative : Bool) {digits : Text} (hdigits : Numeral.IsDigits digits)
      (hshort : digits.length ≤ Numeral.digitLimit) :
      Denotes (.text (Numeral.signed negative digits))
        (if negative then -(Numeral.natValue digits : Int) else Numeral.natValue digits)

namespace Value.Denotes

variable {v : Value} {n : Int}

theorem kind (hv : v.Denotes n) : v.kind = .number := by
  cases hv with
  | computed => rfl
  | numeral negative hdigits _ =>
      exact Text.kind_of_hasForm (Number.isNumeral_signed negative hdigits) (by decide)

theorem isA (hv : v.Denotes n) (k : Kind) : v.isA k = (k == .number) := by
  rw [Value.isA_eq, hv.kind, Bool.eq_iff_iff, beq_iff_eq, beq_iff_eq, eq_comm]

theorem coerce (hv : v.Denotes n) (depth : Nat) : v.coerce depth .number = .ok (.ofInt n) := by
  cases hv with
  | computed => rfl
  | numeral negative hdigits hshort =>
      rw [Value.coerce, convert, Number.read?_signed negative hdigits hshort]
      rfl

theorem asNumber (hv : v.Denotes n) (depth : Nat) (op : Operator) :
    v.asNumber depth op = .ok (.int n) := by
  rw [Value.asNumber, hv.coerce]
  rfl

theorem stringContent? (hv : v.Denotes n) : Operation.stringContent? v = none := by
  cases v with
  | text t =>
      have hstring : Text.isStringLiteral t = false := hv.isA .string
      exact if_neg (Bool.eq_false_iff.mp hstring)
  | _ => rfl

end Value.Denotes

namespace Operation

variable {b a : Value} {m n : Int}

theorem subtract_of_denotes (hb : b.Denotes m) (ha : a.Denotes n) (depth : Nat) :
    arithmetic depth .subtract b a = .ok (.ofInt (m - n)) := by
  rw [arithmetic, hb.asNumber, ha.asNumber]
  rfl

/-- Integers are neither arrays nor strings, so that they are multiplied as numbers. -/
theorem multiply_of_denotes (hb : b.Denotes m) (ha : a.Denotes n) (depth : Nat) :
    multiply depth b a = .ok (.ofInt (m * n)) := by
  have hproduct : arithmetic depth .multiply b a = .ok (.ofInt (m * n)) := by
    rw [arithmetic, hb.asNumber, ha.asNumber]
    rfl
  simp [multiply, hb.isA, ha.isA, hb.stringContent?, hproduct]

theorem comparands_of_denotes (hb : b.Denotes m) (ha : a.Denotes n) (depth : Nat) :
    Comparands.of depth b a = .ok (.numbers (.int m) (.int n)) := by
  simp only [Comparands.of, hb.isA, ha.isA, hb.coerce, ha.coerce]
  rfl

end Operation

theorem Relation.decide_greater (m n : Int) :
    greater.decide (.numbers (.int m) (.int n)) = .ok (Decidable.decide (n < m)) := by
  have hholds : greater.holds (some (compare m n)) = Decidable.decide (n < m) := by
    rw [Bool.eq_iff_iff]
    simp [holds, Int.compare_eq_gt]
  exact congrArg Except.ok hholds

namespace Operator

variable {b a : Value} {m n : Int}

theorem multiply_apply (hb : b.Denotes m) (ha : a.Denotes n) (depth : Nat) (rest : Stack) :
    (arithmetic .multiply).apply depth (a :: b :: rest) = ⟨.ofInt (m * n) :: rest, none⟩ := by
  change binary (.arithmetic .multiply) (Operation.multiply depth) (a :: b :: rest) = _
  rw [binary_cons, Operation.multiply_of_denotes hb ha]
  rfl

theorem subtract_apply (hb : b.Denotes m) (ha : a.Denotes n) (depth : Nat) (rest : Stack) :
    (arithmetic .subtract).apply depth (a :: b :: rest) = ⟨.ofInt (m - n) :: rest, none⟩ := by
  change binary (.arithmetic .subtract) (Operation.arithmetic depth .subtract) (a :: b :: rest) = _
  rw [binary_cons, Operation.subtract_of_denotes hb ha]
  rfl

theorem greater_apply (hb : b.Denotes m) (ha : a.Denotes n) (depth : Nat) (rest : Stack) :
    (compare .greater).apply depth (a :: b :: rest) =
      ⟨.bool (decide (n < m)) :: rest, none⟩ := by
  rw [apply, binary_cons, Operation.comparands_of_denotes hb ha]
  simp only [bind, Except.bind, Relation.decide_greater]
  rfl

end Operator

end StackScript
