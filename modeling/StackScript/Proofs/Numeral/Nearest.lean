import StackScript.Proofs.Numeral.Finite

/-! # The double nearest to an integer

An integer that is converted to a double is rounded to 53 significant bits, and a tie goes to the
even significand. Up to `2 ^ 53` nothing is lost.
-/

namespace StackScript.Binary64

/-! ## Rounding to 53 bits -/

/-- The size of the last of the 53 leading bits of a number. -/
def unit (n : Nat) : Nat := Nat.pow 2 (n.log2 - 52)

/-- A natural number rounded to 53 significant bits; a tie goes to the even significand. -/
def rounded (n : Nat) : Nat := roundRatio n (unit n) * unit n

/-- An integer rounded to 53 significant bits. -/
def roundedInt (n : Int) : Int := if n < 0 then -(rounded n.natAbs : Int) else rounded n.natAbs

theorem roundRatio_one (n : Nat) : roundRatio n 1 = n := by simp [roundRatio, Nat.mod_one]

theorem rounded_of_le {n : Nat} (hn : n ≤ 2 ^ 53) : rounded n = n := by
  rcases Nat.lt_or_eq_of_le hn with hless | rfl
  · have hlog : n.log2 ≤ 52 := Nat.le_of_lt_succ (by
      rcases Nat.eq_zero_or_pos n with rfl | hpos
      · decide
      · exact (Nat.log2_lt hpos.ne').mpr hless)
    have hunit : unit n = 1 := by simp [unit, Nat.sub_eq_zero_of_le hlog]
    rw [rounded, hunit, roundRatio_one, Nat.mul_one]
  · decide

theorem roundedInt_of_le {n : Int} (hn : n.natAbs ≤ 2 ^ 53) : roundedInt n = n := by
  rw [roundedInt, rounded_of_le hn]
  split <;> omega

theorem le_roundRatio (num den : Nat) : num / den ≤ roundRatio num den := by
  rw [roundRatio]
  split <;> omega

theorem roundRatio_le (num den : Nat) : roundRatio num den ≤ num / den + 1 := by
  rw [roundRatio]
  split <;> omega

/-! ## Words of doubles -/

theorem hiddenBit_eq : hiddenBit = 4503599627370496 := rfl

theorem parts_ofBits_of_lt {word : Nat} (hword : word < 0x7ff0000000000000) :
    parts (.ofBits word.toUInt64) =
      if word / hiddenBit = 0 then .finite false word leastExponent
      else .finite false (hiddenBit + word % hiddenBit)
        (leastExponent + (word / hiddenBit - 1 : Nat)) := by
  have hhidden : Nat.pow 2 52 = hiddenBit := rfl
  have hbits : word.toUInt64.toBitVec.toNat = word := by
    rw [UInt64.toNat_toBitVec, Nat.toUInt64_eq, UInt64.toNat_ofNat_of_lt']
    rw [UInt64.size]
    omega
  have hplus : (word / Nat.pow 2 63 == 1) = false := by
    rw [beq_eq_false_iff_ne, Nat.pow_eq]
    omega
  have hless : word / hiddenBit < 2047 := by
    rw [hiddenBit_eq]
    omega
  have hfield : word / hiddenBit % Nat.pow 2 11 = word / hiddenBit :=
    Nat.mod_eq_of_lt (hless.trans (by decide))
  rw [parts_ofBits, ofUnpacked_unpack, hbits]
  simp only [hplus, hhidden, hfield, if_neg hless.ne]
  split
  next hzero => rw [Nat.mod_eq_of_lt ((Nat.div_eq_zero_iff_lt (by decide)).mp hzero)]
  next => rfl

/-- A significand of up to 53 bits, put below the exponent, carries into it if it has to. -/
theorem value?_ofBits {steps significand : Nat} (hupper : significand ≤ 2 * hiddenBit)
    (hlower : steps = 0 ∨ hiddenBit ≤ significand)
    (hfinite : steps * hiddenBit + significand < 0x7ff0000000000000) :
    value? (.ofBits (steps * hiddenBit + significand).toUInt64) =
      some ((significand : ℚ) * 2 ^ (leastExponent + steps)) := by
  have hdiv : (steps * hiddenBit + significand) / hiddenBit = steps + significand / hiddenBit := by
    rw [Nat.add_comm, Nat.add_mul_div_right _ _ (by decide), Nat.add_comm]
  have hmod : (steps * hiddenBit + significand) % hiddenBit = significand % hiddenBit :=
    Nat.mul_add_mod_self_right _ _ _
  rw [value?, parts_ofBits_of_lt hfinite, hdiv, hmod]
  rcases Nat.lt_or_ge significand hiddenBit with hsubnormal | hnormal
  · obtain rfl := hlower.resolve_right (Nat.not_le.mpr hsubnormal)
    rw [if_pos (by rw [Nat.div_eq_of_lt hsubnormal])]
    simp [Parts.value?]
  · rcases Nat.lt_or_eq_of_le hupper with hless | rfl
    · have hone : significand / hiddenBit = 1 := by
        rw [hiddenBit_eq] at *
        omega
      have hsum : hiddenBit + significand % hiddenBit = significand := by
        rw [Nat.mod_eq_sub_mod hnormal, Nat.mod_eq_of_lt (by omega)]
        omega
      rw [hone, if_neg (Nat.succ_ne_zero _), hsum]
      simp [Parts.value?]
    · have htwo : 2 * hiddenBit / hiddenBit = 2 := rfl
      have hpower : (2 : ℚ) ^ (leastExponent + (steps + 1 : Nat)) =
          2 ^ (leastExponent + steps) * 2 := by
        rw [Nat.cast_succ, ← add_assoc, zpow_add_one₀ (by norm_num)]
      rw [htwo, if_neg (Nat.succ_ne_zero _), Nat.mul_mod_left]
      simp only [Parts.value?, Bool.false_eq_true, if_false, Nat.add_zero, Nat.add_succ_sub_one,
        Option.some.injEq, hpower, one_mul]
      push_cast
      ring

/-! ## Integers -/

/-- The 53 leading bits of a number, rounded. -/
def leading (n : Nat) : Nat :=
  if 52 ≤ n.log2 then roundRatio n (unit n) else n * Nat.pow 2 (52 - n.log2)

theorem hiddenBit_mul_unit {n : Nat} (hlog : 52 ≤ n.log2) :
    hiddenBit * unit n = Nat.pow 2 n.log2 := by
  rw [hiddenBit, unit, Nat.pow_eq, Nat.pow_eq, ← Nat.pow_add, Nat.add_sub_cancel' hlog]
  rfl

theorem leading_bounds {n : Nat} (hn : n ≠ 0) :
    hiddenBit ≤ leading n ∧ leading n ≤ 2 * hiddenBit := by
  have hlower : Nat.pow 2 n.log2 ≤ n := Nat.log2_self_le hn
  have hupper : n < Nat.pow 2 n.log2 * 2 := Nat.lt_log2_self
  unfold leading
  split
  next hlog =>
    have hpower := hiddenBit_mul_unit hlog
    have hpos : 0 < unit n := Nat.two_pow_pos _
    have hle : hiddenBit ≤ n / unit n := (Nat.le_div_iff_mul_le hpos).mpr (hpower ▸ hlower)
    have hless : n / unit n < 2 * hiddenBit := (Nat.div_lt_iff_lt_mul hpos).mpr (by
      rw [Nat.mul_assoc, hpower]
      omega)
    exact ⟨hle.trans (le_roundRatio _ _), (roundRatio_le _ _).trans hless⟩
  next hlog =>
    have hpower : Nat.pow 2 n.log2 * Nat.pow 2 (52 - n.log2) = hiddenBit := by
      rw [hiddenBit, Nat.pow_eq, Nat.pow_eq, ← Nat.pow_add, Nat.add_sub_cancel' (by omega)]
    constructor
    · rw [← hpower]
      exact Nat.mul_le_mul_right _ hlower
    · rw [← hpower, ← Nat.mul_assoc, Nat.mul_comm 2]
      exact Nat.mul_le_mul_right _ hupper.le

theorem leading_mul {n : Nat} :
    (leading n : ℚ) * 2 ^ (leastExponent + (n.log2 + 1022 : Nat)) = rounded n := by
  unfold leading
  split
  next hlog =>
    have hexponent : leastExponent + (n.log2 + 1022 : Nat) = (n.log2 - 52 : Nat) := by
      rw [leastExponent]
      omega
    rw [hexponent, zpow_natCast, rounded, unit, Nat.pow_eq]
    push_cast
    rfl
  next hlog =>
    have hexponent : leastExponent + (n.log2 + 1022 : Nat) = -(52 - n.log2 : Nat) := by
      rw [leastExponent]
      omega
    have hunit : unit n = 1 := by simp [unit, Nat.sub_eq_zero_of_le (Nat.le_of_not_le hlog)]
    rw [hexponent, zpow_neg, zpow_natCast, rounded, hunit, roundRatio_one, Nat.mul_one, Nat.pow_eq]
    push_cast
    exact mul_inv_cancel_right₀ (pow_ne_zero _ two_ne_zero) _

theorem binaryLog_one {n : Nat} (hn : n ≠ 0) : binaryLog n 1 = n.log2 := by
  have hlog : Nat.log2 1 = 0 := rfl
  simpa [binaryLog, hlog] using Nat.log2_self_le hn

theorem nearestWord_one {n : Nat} (hn : n ≠ 0) :
    nearestWord n 1 = min ((n.log2 + 1022) * hiddenBit + leading n) 0x7ff0000000000000 := by
  have hexponent : max (binaryLog n 1 - 52) leastExponent = (n.log2 : Int) - 52 := by
    rw [binaryLog_one hn, leastExponent]
    omega
  have hsteps : ((n.log2 : Int) - 52 - leastExponent).toNat = n.log2 + 1022 := by
    rw [leastExponent]
    omega
  have hleading : (if 0 ≤ (n.log2 : Int) - 52 then
        roundRatio n (1 * Nat.pow 2 ((n.log2 : Int) - 52).toNat)
      else roundRatio (n * Nat.pow 2 (-((n.log2 : Int) - 52)).toNat) 1) = leading n := by
    rw [leading, unit, Nat.one_mul, roundRatio_one]
    split
    · rw [if_pos (by omega)]
      congr 2
      omega
    · rw [if_neg (by omega)]
      congr 2
      omega
  rw [nearestWord, if_neg hn]
  simp only [hexponent, hsteps, hleading]

/-- An integer becomes the double of its rounded value. -/
theorem value?_of_ofInt? {n : Int} {x : Float} (hx : ofInt? n = some x) :
    value? x = some (roundedInt n : ℚ) := by
  rw [ofInt?] at hx
  split at hx
  next hfinite =>
    have hmagnitude : value? (.ofBits (nearestWord n.natAbs 1).toUInt64) =
        some (rounded n.natAbs : ℚ) := by
      rcases eq_or_ne n.natAbs 0 with hzero | hpos
      · rw [hzero, rounded_of_le (by decide)]
        change value? (.ofBits (0 * hiddenBit + 0).toUInt64) = _
        rw [value?_ofBits (by decide) (Or.inl rfl) (by decide)]
        simp
      · rw [nearestWord_one hpos] at hfinite ⊢
        have hword := (min_lt_iff.mp hfinite).resolve_right (lt_irrefl _)
        obtain ⟨hlower, hupper⟩ := leading_bounds hpos
        rw [min_eq_left hword.le, value?_ofBits hupper (Or.inr hlower) hword, leading_mul]
    rw [← Option.some.inj hx, value?_withSign _ hmagnitude, Nat.abs_cast, roundedInt]
    split
    next hneg => simp [of_decide_eq_true hneg]
    next hneg => simp [of_decide_eq_false (Bool.eq_false_of_not_eq_true hneg)]
  next => cases hx

theorem exists_ofInt? {n : Int} (hn : n.natAbs < 2 ^ 63) : ∃ x, ofInt? n = some x := by
  have hfinite : nearestWord n.natAbs 1 < 0x7ff0000000000000 := by
    rcases eq_or_ne n.natAbs 0 with hzero | hpos
    · rw [hzero]
      decide
    · have hlog : n.natAbs.log2 < 63 := (Nat.log2_lt hpos).mpr hn
      have hupper := (leading_bounds hpos).2
      rw [nearestWord_one hpos, hiddenBit_eq] at *
      omega
  rw [ofInt?]
  exact ⟨_, if_pos hfinite⟩

/-! ## No double is nearer -/

theorem two_mul_roundRatio_sub_le (num : Nat) {den : Nat} (hden : 0 < den) :
    2 * |(roundRatio num den * den : Int) - num| ≤ den := by
  have hsplit := Nat.div_add_mod' num den
  have hremainder := Nat.mod_lt num hden
  have habs (k : Nat) : 2 * |(k * den : Int) - num| ≤ den ↔
      2 * (k * den) ≤ den + 2 * num ∧ 2 * num ≤ den + 2 * (k * den) := by
    rw [← Nat.cast_mul]
    have hcases := abs_cases ((k * den : Nat) - num : Int)
    omega
  rw [habs, roundRatio]
  simp only [Bool.or_eq_true, Bool.and_eq_true, decide_eq_true_eq, beq_iff_eq]
  split
  next =>
    rw [Nat.add_mul]
    omega
  next => omega

/-- No multiple of the denominator is nearer. -/
theorem roundRatio_nearest (num : Nat) {den : Nat} (hden : 0 < den) (k : Int) :
    |(roundRatio num den * den : Int) - num| ≤ |k * den - num| := by
  rcases eq_or_ne k (roundRatio num den) with rfl | hne
  · rfl
  · have hhalf := two_mul_roundRatio_sub_le num hden
    have hapart : (den : Int) ≤ |k * den - roundRatio num den * den| := by
      rw [← sub_mul, abs_mul, Nat.abs_cast]
      exact le_mul_of_one_le_left (by positivity) (Int.one_le_abs (sub_ne_zero.mpr hne))
    have htriangle := abs_sub_le (k * den : Int) num (roundRatio num den * den)
    rw [abs_sub_comm (num : Int)] at htriangle
    omega

theorem rounded_nearest_mul (n : Nat) (k : Int) :
    |(rounded n : ℚ) - n| ≤ |(k : ℚ) * unit n - n| := by
  have h := roundRatio_nearest n (Nat.two_pow_pos (n.log2 - 52)) k
  rw [rounded]
  exact_mod_cast h

section Significands

variable {n significand : Nat} {exponent : Int}

theorem cast_unit (hlog : 52 ≤ n.log2) : (unit n : ℚ) = 2 ^ ((n.log2 : Int) - 52) := by
  rw [unit, Nat.pow_eq, Nat.cast_pow, ← zpow_natCast, Nat.cast_sub hlog]
  rfl

/-- A significand whose exponent is not less stands for a multiple of the last leading bit. -/
theorem exists_scaled_eq_mul (significand : Nat) (hlog : 52 ≤ n.log2)
    (habove : (n.log2 : Int) - 52 ≤ exponent) :
    ∃ k : Int, (significand : ℚ) * 2 ^ exponent = k * unit n := by
  obtain ⟨e, rfl⟩ := Int.le.dest habove
  refine ⟨significand * 2 ^ e, ?_⟩
  rw [cast_unit hlog, zpow_add₀ two_ne_zero, zpow_natCast]
  push_cast
  ring

theorem rounded_nearest (n : Nat) (exponent : Int) (hsignificand : significand < 2 * hiddenBit) :
    |(rounded n : ℚ) - n| ≤ |(significand : ℚ) * 2 ^ exponent - n| := by
  rcases Nat.lt_or_ge (2 ^ 53) n with hlarge | hsmall
  · have hlog : 52 ≤ n.log2 := (Nat.le_log2 (by omega)).mpr (by omega)
    rcases lt_or_ge exponent ((n.log2 : Int) - 52) with hbelow | habove
    · -- the power of two at or below `n` is a multiple of the last bit that is nearer
      have hscaled : (significand : ℚ) * 2 ^ exponent ≤ hiddenBit * unit n := by
        rw [cast_unit hlog]
        exact (scaled_lt hsignificand hbelow).le
      have hbound : (hiddenBit * unit n : ℚ) ≤ n := by
        have hle : hiddenBit * unit n ≤ n :=
          (hiddenBit_mul_unit hlog).trans_le (Nat.log2_self_le (by omega))
        exact_mod_cast hle
      have hmultiple := rounded_nearest_mul n hiddenBit
      rw [Int.cast_natCast, abs_sub_comm _ (n : ℚ), abs_sub_comm _ (n : ℚ),
        abs_of_nonneg (sub_nonneg.mpr hbound)] at hmultiple
      rw [abs_sub_comm, abs_sub_comm _ (n : ℚ),
        abs_of_nonneg (sub_nonneg.mpr (hscaled.trans hbound))]
      exact hmultiple.trans (sub_le_sub_left hscaled _)
    · obtain ⟨k, hk⟩ := exists_scaled_eq_mul significand hlog habove
      rw [hk]
      exact rounded_nearest_mul n k
  · simp [rounded_of_le hsmall]

end Significands

/-- No double is nearer to an integer than the one that it becomes. -/
theorem roundedInt_nearest (n : Int) {x : Float} {q : ℚ} (hx : value? x = some q) :
    |(roundedInt n : ℚ) - n| ≤ |q - n| := by
  obtain ⟨negative, significand, exponent, hparts, hq⟩ := value?_eq_some.mp hx
  have hnearest := rounded_nearest n.natAbs exponent (lt_of_parts hparts).1
  have hsize : (n.natAbs : ℚ) = |(n : ℚ)| := by rw [Nat.cast_natAbs, Int.cast_abs]
  have hrounded : |(roundedInt n : ℚ) - n| = |(rounded n.natAbs : ℚ) - n.natAbs| := by
    rw [hsize, roundedInt]
    split
    next hneg =>
      rw [abs_of_neg (Int.cast_lt_zero.mpr hneg), abs_sub_comm]
      push_cast
      congr 1
      ring
    next hpos => rw [abs_of_nonneg (Int.cast_nonneg_iff.mpr (not_lt.mp hpos)), Int.cast_natCast]
  have hvalue : |q| = significand * 2 ^ exponent := by rw [hq, abs_signed]
  rw [hsize, ← hvalue] at hnearest
  rw [hrounded, hsize]
  exact hnearest.trans (abs_abs_sub_abs_le _ _)

end StackScript.Binary64
