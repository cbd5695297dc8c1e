import Mathlib.Algebra.Order.Field.Power
import Mathlib.Data.Rat.Floor
import StackScript.Proofs.Simulation.Operator

/-! # Shifts

A shift scales an integer by a power of two and rounds down, to the left by the power that the count
names and to the right by its inverse, so that a negative count reverses the direction. Shifts in
one direction add up, and a shift to the left is undone by one to the right.
-/

namespace StackScript

namespace Number

variable {n j k : Int}

/-! ## Scaling -/

/-- The integer times a power of two, rounded down. -/
def scaled (n count : Int) : Int := ⌊(n : ℚ) * 2 ^ count⌋

theorem mul_two_zpow_natCast (n : Int) (k : Nat) :
    (n : ℚ) * 2 ^ (k : Int) = ((n * 2 ^ k : Int) : ℚ) := by
  rw [zpow_natCast]
  push_cast
  rfl

theorem mul_two_zpow_neg_natCast (x : ℚ) (k : Nat) :
    x * 2 ^ (-(k : Int)) = x / (2 ^ k : Nat) := by
  rw [zpow_neg, zpow_natCast, ← div_eq_mul_inv]
  push_cast
  rfl

theorem scaled_natCast (n : Int) (k : Nat) : scaled n k = n * 2 ^ k := by
  rw [scaled, mul_two_zpow_natCast, Int.floor_intCast]

theorem scaled_neg_natCast (n : Int) (k : Nat) : scaled n (-k) = n / 2 ^ k := by
  rw [scaled, mul_two_zpow_neg_natCast, Rat.floor_intCast_div_natCast]
  push_cast
  rfl

theorem scaled_zero (n : Int) : scaled n 0 = n := by
  simpa using scaled_natCast n 0

/-- To scale twice is to scale once, unless the first time bits are lost that the second time asks
for. -/
theorem scaled_scaled (h : 0 ≤ j ∨ k ≤ 0) : scaled (scaled n j) k = scaled n (j + k) := by
  have hsum : (n : ℚ) * 2 ^ (j + k) = n * 2 ^ j * 2 ^ k := by
    rw [zpow_add₀ (by decide), mul_assoc]
  rw [scaled, scaled, scaled, hsum]
  rcases h with h | h
  · -- the first time the product is an integer
    obtain ⟨j, rfl⟩ := Int.eq_ofNat_of_zero_le h
    rw [mul_two_zpow_natCast, Int.floor_intCast]
  · -- the second time it is divided by a natural number, for which it may be rounded before
    obtain ⟨k, rfl⟩ := Int.exists_eq_neg_ofNat h
    rw [mul_two_zpow_neg_natCast, mul_two_zpow_neg_natCast, Int.floor_div_natCast,
      Int.floor_div_natCast, Int.floor_intCast]

/-! ## Shifting -/

/-- The integer fits into memory when it has been shifted. Zero always does, and so does whatever
is shifted to the right. -/
def HasRoom (n count : Int) : Prop :=
  0 ≤ count → n ≠ 0 → shiftedWords n count.toNat ≤ wordLimit ∧ count ≤ memoryBits

instance (n count : Int) : Decidable (HasRoom n count) :=
  inferInstanceAs (Decidable (_ → _ → _))

/-- There is room to undo a shift to the left. -/
theorem HasRoom.back (hroom : HasRoom n k) (hcount : 0 ≤ k) : HasRoom (scaled n k) (-k) := by
  intro hback
  obtain rfl : k = 0 := by omega
  rw [scaled_zero]
  exact hroom hcount

theorem shift_natCast (n : Int) (k : Nat) :
    shift n k =
      if n = 0 then .ok 0
      else if wordLimit < shiftedWords n k then .error .shiftTooFar
      else if memoryBits < k then .error .outOfMemory
      else .ok (n * 2 ^ k) := rfl

/-- An integer with at most `k` bits has nothing above them but its sign. -/
theorem ediv_two_pow_of_log2_lt {k : Nat} (h : n.natAbs.log2 < k) :
    n / 2 ^ k = if n < 0 then -1 else 0 := by
  have hless : n.natAbs < 2 ^ k :=
    Nat.lt_of_lt_of_le Nat.lt_log2_self (Nat.pow_le_pow_right (by decide) h)
  have hpower : ((2 ^ k : Nat) : Int) = 2 ^ k := by
    push_cast
    rfl
  split
  next hneg => exact Int.ediv_eq_neg_one_of_neg_of_le hneg (by omega)
  next => exact Int.ediv_eq_zero_of_lt (by omega) (by omega)

theorem shift_neg_succ (n : Int) (k : Nat) : shift n (-(k + 1 : Nat)) = .ok (n / 2 ^ (k + 1)) := by
  change Except.ok (if _ then _ else _) = _
  congr 1
  split
  next hless => exact (ediv_two_pow_of_log2_lt hless).symm
  next =>
    rw [Int.shiftRight_eq_div_pow]
    push_cast
    rfl

theorem shift_of_hasRoom (hroom : HasRoom n k) : shift n k = .ok (scaled n k) := by
  rcases lt_or_ge k 0 with hneg | hcount
  · obtain ⟨k, rfl⟩ := Int.eq_negSucc_of_lt_zero hneg
    rw [Int.negSucc_eq, ← Int.natCast_succ, shift_neg_succ, scaled_neg_natCast]
  · obtain ⟨k, rfl⟩ := Int.eq_ofNat_of_zero_le hcount
    rw [shift_natCast, scaled_natCast]
    split
    next hzero => rw [hzero, Int.zero_mul]
    next hzero =>
      obtain ⟨hwords, hbits⟩ := hroom hcount hzero
      rw [Int.toNat_natCast] at hwords
      rw [if_neg (Nat.not_lt.mpr hwords), if_neg (Nat.not_lt.mpr (Int.ofNat_le.mp hbits))]

/-- Without room there is no result. -/
theorem shift_of_not_hasRoom (hroom : ¬ HasRoom n k) :
    ∃ fault, shift n k = .error fault ∧ (fault = .shiftTooFar ∨ fault = .outOfMemory) := by
  simp only [HasRoom, Classical.not_imp] at hroom
  obtain ⟨hcount, hzero, hroom⟩ := hroom
  obtain ⟨k, rfl⟩ := Int.eq_ofNat_of_zero_le hcount
  rw [shift_natCast, if_neg hzero]
  split
  · exact ⟨_, rfl, .inl rfl⟩
  next hwords =>
    have hbits : memoryBits < k := by
      by_contra hbits
      exact hroom ⟨Nat.le_of_not_lt hwords, Int.ofNat_le.mpr (Nat.le_of_not_lt hbits)⟩
    rw [if_pos hbits]
    exact ⟨_, rfl, .inr rfl⟩

end Number

namespace Operator

open Number

variable {depth : Nat} {b a : Value} {m n : Int}

/-! ## Operators -/

/-- Pushes the shifted integer. Nothing is pushed if there is no room for it. -/
def pushShifted (m n : Int) (s : Stack) : Applied :=
  match shift m n with
  | .ok shifted => ⟨.ofInt shifted :: s, none⟩
  | .error fault => ⟨s, some fault⟩

theorem pushShifted_of_hasRoom (hroom : HasRoom m n) (s : Stack) :
    pushShifted m n s = ⟨.ofInt (scaled m n) :: s, none⟩ := by
  rw [pushShifted, shift_of_hasRoom hroom]

theorem apply_shiftLeft (hb : b.toInt depth = .ok m) (ha : a.toInt depth = .ok n) (s : Stack) :
    apply depth .shiftLeft (a :: b :: s) = pushShifted m n s := by
  rw [apply, binary_cons, Operation.shiftLeft, hb, ha, pushShifted, ok_bind, ok_bind]
  cases shift m n <;> rfl

theorem apply_shiftRight (hb : b.toInt depth = .ok m) (ha : a.toInt depth = .ok n) (s : Stack) :
    apply depth .shiftRight (a :: b :: s) = pushShifted m (-n) s := by
  rw [apply, binary_cons, Operation.shiftRight, hb, ha, pushShifted, ok_bind, ok_bind]
  cases shift m (-n) <;> rfl

/-- A shift by the sum of two counts of the same sign pushes what the two shifts push one after the
other. -/
theorem pushShifted_add {k : Int} (hsign : 0 ≤ n ∧ 0 ≤ k ∨ n ≤ 0 ∧ k ≤ 0)
    (hroom : HasRoom (scaled m n) k) (hsum : HasRoom m (n + k)) (s : Stack) :
    pushShifted (scaled m n) k s = pushShifted m (n + k) s := by
  rw [pushShifted_of_hasRoom hroom, pushShifted_of_hasRoom hsum, scaled_scaled]
  exact hsign.imp And.left And.right

/-- Whatever the operands are, they count as integers `m` and `n`, and where memory has room for it
`<<` pushes `m * 2 ^ n` and `>>` pushes `m * 2 ^ (-n)`, both rounded down. So the one is the other
with the count negated, `>>` undoes `<<`, and counts of the same sign add up. -/
theorem shift_scales (hb : b.toInt depth = .ok m) (ha : a.toInt depth = .ok n) (s : Stack) :
    (HasRoom m n →
      apply depth .shiftLeft (a :: b :: s) = ⟨.ofInt ⌊(m : ℚ) * 2 ^ n⌋ :: s, none⟩) ∧
    (HasRoom m (-n) →
      apply depth .shiftRight (a :: b :: s) = ⟨.ofInt ⌊(m : ℚ) * 2 ^ (-n)⌋ :: s, none⟩) ∧
    (¬ HasRoom m n → ∃ fault, apply depth .shiftLeft (a :: b :: s) = ⟨s, some fault⟩ ∧
      (fault = .shiftTooFar ∨ fault = .outOfMemory)) ∧
    (∀ w : Value, w.toInt depth = .ok (-n) →
      apply depth .shiftLeft (a :: b :: s) = apply depth .shiftRight (w :: b :: s)) ∧
    (0 ≤ n → HasRoom m n → ∃ v, apply depth .shiftLeft (a :: b :: s) = ⟨v :: s, none⟩ ∧
      ∀ w : Value, w.toInt depth = .ok n →
        apply depth .shiftRight (w :: v :: s) = ⟨.ofInt m :: s, none⟩) ∧
    ∀ (w c : Value) (k : Int), w.toInt depth = .ok k → c.toInt depth = .ok (n + k) →
      (0 ≤ n ∧ 0 ≤ k ∨ n ≤ 0 ∧ k ≤ 0) →
      (HasRoom m n → HasRoom (scaled m n) k → HasRoom m (n + k) →
        ∃ v, apply depth .shiftLeft (a :: b :: s) = ⟨v :: s, none⟩ ∧
          apply depth .shiftLeft (w :: v :: s) = apply depth .shiftLeft (c :: b :: s)) ∧
      (HasRoom m (-n) → HasRoom (scaled m (-n)) (-k) → HasRoom m (-n + -k) →
        ∃ v, apply depth .shiftRight (a :: b :: s) = ⟨v :: s, none⟩ ∧
          apply depth .shiftRight (w :: v :: s) = apply depth .shiftRight (c :: b :: s)) := by
  have hinteger (x : Int) : (Value.ofInt x).toInt depth = .ok x := rfl
  rw [apply_shiftLeft hb ha, apply_shiftRight hb ha]
  refine ⟨fun hroom => pushShifted_of_hasRoom hroom s, fun hroom => pushShifted_of_hasRoom hroom s,
    fun hroom => ?_, fun w hw => ?_, fun hcount hroom => ?_, fun w c k hw hc hsign => ⟨?_, ?_⟩⟩
  · obtain ⟨fault, hfault, hmemory⟩ := shift_of_not_hasRoom hroom
    exact ⟨fault, by rw [pushShifted, hfault], hmemory⟩
  · rw [apply_shiftRight hb hw, Int.neg_neg]
  · refine ⟨_, pushShifted_of_hasRoom hroom s, fun w hw => ?_⟩
    rw [apply_shiftRight (hinteger _) hw, pushShifted_of_hasRoom (hroom.back hcount),
      scaled_scaled (.inl hcount), Int.add_right_neg, scaled_zero]
  · intro hroom hnext hsum
    refine ⟨_, pushShifted_of_hasRoom hroom s, ?_⟩
    rw [apply_shiftLeft (hinteger _) hw, apply_shiftLeft hb hc, pushShifted_add hsign hnext hsum]
  · intro hroom hnext hsum
    refine ⟨_, pushShifted_of_hasRoom hroom s, ?_⟩
    rw [apply_shiftRight (hinteger _) hw, apply_shiftRight hb hc, Int.neg_add,
      pushShifted_add (by omega) hnext hsum]

/-- A negative integer is rounded away from zero when bits are lost, wherever its count comes
from. -/
theorem shift_scales_negative :
    let b : Value := .text " -7th".toList
    let two : Value := .text "\"2\"".toList
    let three : Value := .text "+3".toList
    apply 9 .shiftLeft [two, b] = ⟨[.ofInt (-28)], none⟩ ∧
    apply 9 .shiftRight [two, b] = ⟨[.ofInt (-2)], none⟩ ∧
    ∃ v, apply 9 .shiftRight [two, b] = ⟨[v], none⟩ ∧
      apply 9 .shiftRight [.ofInt 1, v] = apply 9 .shiftRight [three, b] := by
  intro b two three
  have hb : b.toInt 9 = .ok (-7) := by decide +kernel
  have htwo : two.toInt 9 = .ok 2 := by decide +kernel
  have hthree : three.toInt 9 = .ok 3 := by decide +kernel
  have hleft : ⌊((-7 : Int) : ℚ) * 2 ^ (2 : Int)⌋ = -28 := by norm_num
  have hright : ⌊((-7 : Int) : ℚ) * 2 ^ (-2 : Int)⌋ = -2 := by norm_num
  have hroom {n : Int} {k : Int} (hk : k < 0) : HasRoom n k := fun h => absurd h (by omega)
  obtain ⟨hscaled, hscaled', -, -, -, hsum⟩ := shift_scales hb htwo []
  refine ⟨?_, ?_, ?_⟩
  · rw [hscaled (by decide +kernel), hleft]
  · rw [hscaled' (hroom (by decide)), hright]
  · exact (hsum (.ofInt 1) three 1 rfl hthree (.inl (by decide))).2 (hroom (by decide))
      (hroom (by decide)) (hroom (by decide))

end Operator

end StackScript
