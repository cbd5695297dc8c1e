import StackScript.Operator.Operation
import StackScript.Proofs.Simulation.Value
import StackScript.Proofs.Value.Kinds

/-! # Operations on values that serve alike

Operators look at their operands in a few ways only: they ask for a kind, a number, a list, a
text, an integer or a condition. Values that answer alike lead to alike results.
-/

namespace StackScript

variable {either : Prop} {d e : Nat}

/-- An operator with depth `d` makes of `v` what one with depth `e` makes of `w`. -/
structure Serves (either : Prop) (d e : Nat) (v w : Value) : Prop where
  depth : either ∨ d ≤ e
  kind : v.kind = w.kind
  content : Operation.stringContent? v = Operation.stringContent? w
  /-- A value of a kind is the same when it is converted to that kind. -/
  coerce : ∀ k, k = .number ∨ k = .array ∨ k = .matrix → v.kind = k →
    Alike .tooDeep either Eq (v.coerce d k) (w.coerce e k)
  asNumber : ∀ op, Alike .tooDeep either Eq (v.asNumber d op) (w.asNumber e op)
  textOf : Alike .tooDeep either Eq (v.textOf d) (w.textOf e)
  toInt : Alike .tooDeep either Eq (v.toInt d) (w.toInt e)
  toBool : Alike .tooDeep either Eq (v.toBool d) (w.toBool e)

namespace Serves

variable {v w v' w' : Value}

theorem refl (h : either ∨ d ≤ e) (v : Value) : Serves either d e v v where
  depth := h
  kind := rfl
  content := rfl
  coerce := fun k _ _ => Value.coerce_alike h v k
  asNumber := fun op => by
    apply (Value.coerce_alike h v .number).bindEq
    intro converted
    split
    · exact .refl _
    · exact (Value.textOf_alike h v).bindEq fun t => .refl _
  textOf := Value.textOf_alike h v
  toInt := Value.toInt_alike h v
  toBool := Value.toBool_alike h v

theorem isA (h : Serves either d e v w) (k : Kind) : v.isA k = w.isA k := by
  rw [Value.isA_eq, Value.isA_eq, h.kind]

theorem asList (h : Serves either d e v w) (op : Operator) {k : Kind}
    (hk : k = .array ∨ k = .matrix) :
    Alike .tooDeep either Eq (v.asList d op k) (w.asList e op k) := by
  simp only [Value.asList, h.isA k]
  cases hw : w.isA k with
  | true =>
      have hkind : v.kind = k := by
        rw [← h.isA k, Value.isA_eq, beq_iff_eq] at hw
        exact hw
      apply (h.coerce k (Or.inr hk) hkind).bindEq
      intro converted
      split
      · exact .refl _
      · exact h.textOf.bindEq fun t => .refl _
  | false => exact h.textOf.bindEq fun t => .refl _

theorem comparands (h : Serves either d e v w) (h' : Serves either d e v' w') :
    Alike .tooDeep either Eq (Comparands.of d v v') (Comparands.of e w w') := by
  have hnumber {v w : Value} (h : Serves either d e v w) (hw : w.isA .number = true) :
      Alike .tooDeep either Eq (v.coerce d .number) (w.coerce e .number) := by
    rw [← h.isA, Value.isA_eq, beq_iff_eq] at hw
    exact h.coerce .number (Or.inl rfl) hw
  unfold Comparands.of
  rw [h.isA, h'.isA]
  split
  next hkinds =>
    rw [Bool.and_eq_true] at hkinds
    apply (hnumber h hkinds.1).bindEq
    intro left
    apply (hnumber h' hkinds.2).bindEq
    intro right
    split
    · exact .refl _
    · exact .refl _
    · exact .refl _
    · apply (Value.textOf_alike h.depth left).bindEq
      intro t
      exact (Value.textOf_alike h.depth right).bindEq fun u => .refl _
  next =>
    exact h.textOf.bindEq fun left => h'.textOf.bindEq fun right => .refl _

end Serves

/-! ## Sums of elements -/

namespace Operation

theorem unaddable_alike (h : either ∨ d ≤ e) (v w : Value) :
    Alike .tooDeep either Eq
      (do .error (.unaddable (← v.inspect d) (← w.inspect d)) : Except Fault Value)
      (do .error (.unaddable (← v.inspect e) (← w.inspect e))) := by
  apply (Value.inspect_alike h v).bindEq
  intro left
  exact (Value.inspect_alike h w).bindEq fun right => .refl _

theorem addElements_alike (h : either ∨ d ≤ e) (v w : Value) :
    Alike .tooDeep either Eq (addElements d v w) (addElements e v w) := by
  induction d using Nat.strongRecOn generalizing e v w with
  | ind d ih =>
    cases v with
    | list xs =>
        cases w with
        | list ys =>
            match d, e with
            | 0, _ | 1, _ => exact .first _
            | d + 2, 0 | d + 2, 1 => exact .second (h.resolve_right (by omega)) _
            | d + 2, e + 2 =>
                simp only [addElements]
                refine (Alike.mapM fun pair _ => ?_).bindEq fun sums => .refl _
                exact ih d (by omega) (h.imp_right (by omega)) pair.1 pair.2
        | _ =>
            simp only [addElements]
            exact unaddable_alike h _ _
    | _ =>
        cases w <;> simp only [addElements] <;>
          first
            | exact .refl _
            | exact unaddable_alike h _ _

end Operation

/-! ## Vectors and matrices -/

namespace Matrix

theorem numbersFrom_alike (h : either ∨ d ≤ e) (place : Place) (index : Nat)
    (items : List Value) :
    Alike .tooDeep either Eq (numbersFrom d place index items)
      (numbersFrom e place index items) := by
  induction items generalizing index with
  | nil => exact .refl _
  | cons v rest ih =>
      cases v <;> simp only [numbersFrom] <;>
        first
          | exact (ih (index + 1)).bindEq fun numbers => .refl _
          | exact (Value.inspect_alike h _).bindEq fun shown => .refl _

theorem rowsFrom_alike (h : either ∨ d ≤ e) (role : Role) (width index : Nat)
    (rows : List (List Value)) :
    Alike .tooDeep either Eq (rowsFrom d role width index rows)
      (rowsFrom e role width index rows) := by
  induction rows generalizing index with
  | nil => exact .refl _
  | cons row rest ih =>
      simp only [rowsFrom]
      split
      · exact .refl _
      · apply (numbersFrom_alike h _ _ _).bindEq
        intro numbers
        exact (ih (index + 1)).bindEq fun others => .refl _

theorem rows_alike (h : either ∨ d ≤ e) (role : Role) (items : List Value) :
    Alike .tooDeep either Eq (rows d role items) (rows e role items) := by
  unfold rows
  split
  · exact rowsFrom_alike h _ _ _ _
  · exact .refl _

theorem dot_alike (h : either ∨ d ≤ e) (left right : List Value) :
    Alike .tooDeep either Eq (dot d left right) (dot e left right) := by
  apply (numbersFrom_alike h _ _ _).bindEq
  intro l
  exact (numbersFrom_alike h _ _ _).bindEq fun r => .refl _

theorem mulVector_alike (h : either ∨ d ≤ e) (matrix vector : List Value) :
    Alike .tooDeep either Eq (mulVector d matrix vector) (mulVector e matrix vector) := by
  apply (rows_alike h _ _).bindEq
  intro m
  exact (numbersFrom_alike h _ _ _).bindEq fun v => .refl _

theorem mul_alike (h : either ∨ d ≤ e) (left right : List Value) :
    Alike .tooDeep either Eq (mul d left right) (mul e left right) := by
  apply (rows_alike h _ _).bindEq
  intro l
  exact (rows_alike h _ _).bindEq fun r => .refl _

theorem transpose_alike (h : either ∨ d ≤ e) (matrix : List Value) :
    Alike .tooDeep either Eq (transpose d matrix) (transpose e matrix) :=
  (rows_alike h _ _).bindEq fun _ => .refl _

theorem cross_alike (h : either ∨ d ≤ e) (left right : List Value) :
    Alike .tooDeep either Eq (cross d left right) (cross e left right) := by
  unfold cross
  split
  · exact .refl _
  · apply (numbersFrom_alike h _ _ _).bindEq
    intro l
    exact (numbersFrom_alike h _ _ _).bindEq fun r => .refl _

end Matrix

/-! ## Operations -/

namespace Operation

variable {a a' b b' : Value}

theorem arithmetic_alike (hb : Serves either d e b b') (ha : Serves either d e a a')
    (operation : Arithmetic) :
    Alike .tooDeep either Eq (arithmetic d operation b a) (arithmetic e operation b' a') := by
  apply (hb.asNumber _).bindEq
  intro left
  exact (ha.asNumber _).bindEq fun right => .refl _

theorem add_alike (hb : Serves either d e b b') (ha : Serves either d e a a') :
    Alike .tooDeep either Eq (add d b a) (add e b' a') := by
  simp only [add, hb.isA, ha.isA, hb.content, ha.content]
  split
  · apply (hb.asList _ (Or.inl rfl)).bindEq
    intro left
    apply (ha.asList _ (Or.inl rfl)).bindEq
    intro right
    exact addElements_alike hb.depth _ _
  · split
    · exact .refl _
    · exact arithmetic_alike hb ha .add

theorem multiply_alike (hb : Serves either d e b b') (ha : Serves either d e a a') :
    Alike .tooDeep either Eq (multiply d b a) (multiply e b' a') := by
  simp only [multiply, hb.isA, ha.isA, hb.content]
  split
  · apply (hb.asList _ (Or.inr rfl)).bindEq
    intro matrix
    apply (ha.asList _ (Or.inl rfl)).bindEq
    intro vector
    exact Matrix.mulVector_alike hb.depth _ _
  split
  · apply (ha.asList _ (Or.inr rfl)).bindEq
    intro left
    apply (hb.asList _ (Or.inr rfl)).bindEq
    intro right
    exact Matrix.mul_alike hb.depth _ _
  split
  · apply (hb.asList _ (Or.inl rfl)).bindEq
    intro left
    apply (ha.asList _ (Or.inl rfl)).bindEq
    intro right
    exact Matrix.dot_alike hb.depth _ _
  split
  · exact (ha.asNumber _).bindEq fun count => .refl _
  · exact arithmetic_alike hb ha .multiply

theorem order_alike (hb : Serves either d e b b') (ha : Serves either d e a a') :
    Alike .tooDeep either Eq (order d b a) (order e b' a') :=
  (hb.comparands ha).bindEq fun _ => .refl _

theorem exclusiveOr_alike (hb : Serves either d e b b') (ha : Serves either d e a a') :
    Alike .tooDeep either Eq (exclusiveOr d b a) (exclusiveOr e b' a') := by
  simp only [exclusiveOr, hb.isA, ha.isA]
  split
  · exact hb.toBool.bindEq fun left => ha.toBool.bindEq fun right => .refl _
  · exact hb.toInt.bindEq fun left => ha.toInt.bindEq fun right => .refl _

theorem and_alike (hb : Serves either d e b b') (ha : Serves either d e a a') :
    Alike .tooDeep either Eq (Operation.and d b a) (Operation.and e b' a') := by
  apply hb.toBool.bindEq
  intro holds
  split
  · exact ha.toBool.bindEq fun other => .refl _
  · exact .refl _

theorem or_alike (hb : Serves either d e b b') (ha : Serves either d e a a') :
    Alike .tooDeep either Eq (Operation.or d b a) (Operation.or e b' a') := by
  apply hb.toBool.bindEq
  intro holds
  split
  · exact .refl _
  · exact ha.toBool.bindEq fun other => .refl _

theorem shiftLeft_alike (hb : Serves either d e b b') (ha : Serves either d e a a') :
    Alike .tooDeep either Eq (shiftLeft d b a) (shiftLeft e b' a') :=
  hb.toInt.bindEq fun _ => ha.toInt.bindEq fun _ => .refl _

theorem shiftRight_alike (hb : Serves either d e b b') (ha : Serves either d e a a') :
    Alike .tooDeep either Eq (shiftRight d b a) (shiftRight e b' a') :=
  hb.toInt.bindEq fun _ => ha.toInt.bindEq fun _ => .refl _

theorem crossProduct_alike (hb : Serves either d e b b') (ha : Serves either d e a a') :
    Alike .tooDeep either Eq (crossProduct d b a) (crossProduct e b' a') := by
  apply (hb.asList _ (Or.inl rfl)).bindEq
  intro left
  apply (ha.asList _ (Or.inl rfl)).bindEq
  intro right
  exact Matrix.cross_alike hb.depth _ _

theorem compare_alike (hb : Serves either d e b b') (ha : Serves either d e a a')
    (relation : Relation) :
    Alike .tooDeep either Eq
      (do return .bool (← relation.decide (← Comparands.of d b a)) : Except Fault Value)
      (do return .bool (← relation.decide (← Comparands.of e b' a'))) :=
  (hb.comparands ha).bindEq fun _ => .refl _

/-- What is no matrix stays as it is on either side. -/
theorem transposed_alike {V : Value → Value → Prop} (hrefl : ∀ v, V v v) (hV : V a a')
    (ha : Serves either d e a a') :
    Alike .tooDeep either V (transposed d a) (transposed e a') := by
  simp only [transposed, ha.isA .matrix]
  cases hkind : a'.isA .matrix with
  | true =>
      rw [← ha.isA, Value.isA_eq, beq_iff_eq] at hkind
      apply (ha.coerce .matrix (Or.inr (Or.inr rfl)) hkind).bindEq
      intro converted
      split
      · exact (Matrix.transpose_alike ha.depth _).mono fun v w h => h ▸ hrefl v
      · exact .ok hV
  | false => exact .ok hV

end Operation

end StackScript
