import Mathlib
import StackScript.Proofs.Numeral.Double

/-! # What doubles stand for

A finite double stands for a rational number. Its bits are those of the library's model of doubles,
so that a change of its sign changes the sign of the number.
-/

namespace StackScript

namespace Binary64

open Float.Model (UnpackedFloat Format)
open Float.Model.UnpackedFloat (packComponents unpackMantissa unpackExponent unpackSign)

/-! ## Fields -/

def isMinus : UnpackedFloat.Sign → Bool
  | .negative => true
  | .positive => false

/-- The parts of a double that the library has taken apart. -/
def Parts.ofUnpacked : UnpackedFloat → Parts
  | .notANumber => .nan
  | .infinity sign => .infinite (isMinus sign)
  | .zero sign => .finite (isMinus sign) 0 leastExponent
  | .finite sign significand exponent _ => .finite (isMinus sign) significand exponent

theorem isMinus_ofBitVec (b : BitVec 1) : isMinus (.ofBitVec b) = (b.toNat == 1) := by
  decide +revert

theorem isMinus_neg (sign : UnpackedFloat.Sign) : isMinus (-sign) = !isMinus sign := by
  cases sign <;> rfl

section Fields

variable (b : BitVec Format.binary64.numBits)

theorem toNat_unpackMantissa : (unpackMantissa b).toNat = b.toNat % Nat.pow 2 52 := by
  rw [UnpackedFloat.unpackMantissa_def, BitVec.extractLsb'_toNat]
  rfl

theorem toNat_unpackExponent :
    (unpackExponent b).toNat = b.toNat / Nat.pow 2 52 % Nat.pow 2 11 := by
  rw [UnpackedFloat.unpackExponent_def, BitVec.extractLsb'_toNat, Nat.shiftRight_eq_div_pow]
  rfl

theorem toNat_unpackSign : (unpackSign b).toNat = b.toNat / Nat.pow 2 63 := by
  have hbit : b.toNat / Nat.pow 2 63 < 2 := Nat.div_lt_of_lt_mul b.isLt
  rw [UnpackedFloat.unpackSign_def, BitVec.extractLsb'_toNat, Nat.shiftRight_eq_div_pow]
  exact Nat.mod_eq_of_lt hbit

theorem ofUnpacked_unpack :
    Parts.ofUnpacked (.unpack .binary64 b) =
      let negative := b.toNat / Nat.pow 2 63 == 1
      let field := b.toNat / Nat.pow 2 52 % Nat.pow 2 11
      let fraction := b.toNat % Nat.pow 2 52
      if field = 2047 then if fraction = 0 then .infinite negative else .nan
      else if field = 0 then .finite negative fraction leastExponent
      else .finite negative (hiddenBit + fraction) (leastExponent + (field - 1 : Nat)) := by
  have hinfinite : unpackExponent b = -1#11 ↔ (unpackExponent b).toNat = 2047 :=
    BitVec.toNat_inj.symm
  have hsubnormal : unpackExponent b = 0#11 ↔ (unpackExponent b).toNat = 0 :=
    BitVec.toNat_inj.symm
  have hzero : unpackMantissa b = 0#52 ↔ (unpackMantissa b).toNat = 0 := BitVec.toNat_inj.symm
  have hbias : (Format.exponentBias .binary64 : Int) + (52 : Nat) = 1075 := rfl
  rw [← toNat_unpackMantissa, ← toNat_unpackExponent, ← toNat_unpackSign, ← isMinus_ofBitVec,
    UnpackedFloat.unpack]
  simp only [hinfinite, hsubnormal, hzero, hbias]
  split
  next => split <;> rfl
  next =>
    split
    next hfield =>
      split
      next hfraction => rw [hfraction]; rfl
      next => rw [hfield]; rfl
    next hfield =>
      have happend : (1#1 ++ unpackMantissa b).toNat = hiddenBit + (unpackMantissa b).toNat := by
        rw [BitVec.toNat_append, ← Nat.shiftLeft_add_eq_or_of_lt (BitVec.isLt _)]
        rfl
      rw [Parts.ofUnpacked, happend]
      congr 1
      rw [leastExponent]
      omega

end Fields

theorem parts_eq (x : Float) : parts x = .ofUnpacked x.toModel.unpack := by
  rw [Float.Model.unpack, ofUnpacked_unpack]
  simp only [parts, beq_iff_eq]
  rfl

theorem unpack_pack_unpack (b : BitVec Format.binary64.numBits) :
    UnpackedFloat.unpack .binary64 (UnpackedFloat.pack .binary64 (.unpack .binary64 b)) =
      .unpack .binary64 b := by
  rw [UnpackedFloat.pack_unpack]
  split
  next hnan =>
    simp only [UnpackedFloat.isNaNBits, decide_eq_true_eq] at hnan
    rw [UnpackedFloat.unpack_packedNaN, UnpackedFloat.unpack, if_pos hnan.1, if_neg hnan.2]
  next => rfl

theorem parts_ofBits (w : UInt64) :
    parts (.ofBits w) = .ofUnpacked (.unpack .binary64 w.toBitVec) := by
  rw [parts_eq]
  exact congrArg _ (unpack_pack_unpack w.toBitVec)

/-! ## Signs -/

theorem pack_neg {u : UnpackedFloat} (hu : u ≠ .notANumber) :
    ∃ sign exponent mantissa,
      UnpackedFloat.pack .binary64 u = packComponents .binary64 sign exponent mantissa ∧
        UnpackedFloat.pack .binary64 u.neg =
          packComponents .binary64 (-sign) exponent mantissa := by
  cases u with
  | notANumber => exact absurd rfl hu
  | infinity sign => exact ⟨_, _, _, rfl, rfl⟩
  | zero sign => exact ⟨_, _, _, rfl, rfl⟩
  | finite sign significand exponent hpositive =>
      simp only [UnpackedFloat.neg, UnpackedFloat.pack]
      split
      · exact ⟨_, _, _, rfl, rfl⟩
      · split
        · exact ⟨_, _, _, rfl, rfl⟩
        · exact ⟨_, _, _, rfl, rfl⟩

theorem unpack_packComponents_neg (sign : UnpackedFloat.Sign) (exponent : BitVec 11)
    (mantissa : BitVec 52) :
    UnpackedFloat.unpack .binary64 (packComponents .binary64 (-sign) exponent mantissa) =
      (UnpackedFloat.unpack .binary64 (packComponents .binary64 sign exponent mantissa)).neg := by
  simp only [UnpackedFloat.unpack, UnpackedFloat.unpackMantissa_packComponents,
    UnpackedFloat.unpackExponent_packComponents, UnpackedFloat.unpackSign_packComponents,
    UnpackedFloat.Sign.ofBitVec_toBitVec]
  split
  · split <;> rfl
  · split
    · split <;> rfl
    · rfl

theorem unpack_neg (x : Float) : (-x).toModel.unpack = x.toModel.unpack.neg := by
  have hneg : (-x).toModel.unpack =
      .unpack .binary64 (x.toModel.unpack.neg.pack .binary64) := rfl
  have hsame : UnpackedFloat.unpack .binary64 (x.toModel.unpack.pack .binary64) =
      x.toModel.unpack := unpack_pack_unpack _
  by_cases hnan : x.toModel.unpack = .notANumber
  · rw [hneg, hnan]
    exact UnpackedFloat.unpack_packedNaN
  · obtain ⟨sign, exponent, mantissa, hpack, hpackneg⟩ := pack_neg hnan
    rw [hneg, hpackneg, unpack_packComponents_neg, ← hpack, hsame]

/-! ## Values -/

/-- The number that a double stands for, if it is finite. -/
def Parts.value? : Parts → Option ℚ
  | .finite negative significand exponent =>
      some ((if negative then -1 else 1) * (significand * 2 ^ exponent))
  | _ => none

def value? (x : Float) : Option ℚ := (parts x).value?

theorem value?_eq_some {x : Float} {q : ℚ} :
    value? x = some q ↔ ∃ negative significand exponent,
      parts x = .finite negative significand exponent ∧
        q = (if negative then -1 else 1) * (significand * 2 ^ exponent) := by
  rw [value?]
  cases parts x with
  | finite negative significand exponent => simp [Parts.value?, eq_comm]
  | _ => simp [Parts.value?]

theorem value?_neg {x : Float} {q : ℚ} (hx : value? x = some q) : value? (-x) = some (-q) := by
  rw [value?, parts_eq] at hx ⊢
  rw [unpack_neg]
  cases h : x.toModel.unpack with
  | notANumber => simp [h, Parts.ofUnpacked, Parts.value?] at hx
  | infinity sign => simp [h, Parts.ofUnpacked, Parts.value?] at hx
  | zero sign =>
      simp only [h, Parts.ofUnpacked, Parts.value?, Option.some.injEq] at hx
      simp [UnpackedFloat.neg, Parts.ofUnpacked, Parts.value?, ← hx]
  | finite sign significand exponent hpositive =>
      simp only [h, Parts.ofUnpacked, Parts.value?, Option.some.injEq] at hx
      rw [← hx, UnpackedFloat.neg, Parts.ofUnpacked, Parts.value?, isMinus_neg]
      cases isMinus sign <;> simp

theorem isNegative_of_parts {x : Float} {negative : Bool} {significand : Nat} {exponent : Int}
    (hparts : parts x = .finite negative significand exponent) : isNegative x = negative := by
  have hsign : (x.toBits.toNat / Nat.pow 2 63 == 1) = isNegative x := by
    have hlt : x.toBits.toNat < 2 ^ 64 := x.toBits.toNat_lt
    rw [isNegative, Bool.eq_iff_iff, beq_iff_eq, decide_eq_true_eq, Nat.pow_eq]
    omega
  unfold parts at hparts
  simp only [hsign] at hparts
  split at hparts
  next => split at hparts <;> cases hparts
  next => split at hparts <;> cases hparts <;> rfl

theorem abs_signed (negative : Bool) (significand : Nat) (exponent : Int) :
    |(if negative then -1 else 1) * ((significand : ℚ) * 2 ^ exponent)| =
      significand * 2 ^ exponent := by
  have hnonneg : 0 ≤ (significand : ℚ) * 2 ^ exponent := by positivity
  cases negative
  · rw [if_neg Bool.false_ne_true, one_mul, abs_of_nonneg hnonneg]
  · rw [if_pos rfl, neg_one_mul, abs_neg, abs_of_nonneg hnonneg]

/-- The magnitude is kept, and the sign is the one asked for. -/
theorem value?_withSign {x : Float} {q : ℚ} (negative : Bool) (hx : value? x = some q) :
    value? (withSign negative x) = some (if negative then -|q| else |q|) := by
  obtain ⟨sign, significand, exponent, hparts, rfl⟩ := value?_eq_some.mp hx
  rw [withSign, isNegative_of_parts hparts, abs_signed]
  split
  next hsame =>
    rw [hx, beq_iff_eq.mp hsame]
    cases sign <;> simp
  next hdiffers =>
    rw [value?_neg hx]
    cases sign <;> cases negative <;> simp at hdiffers ⊢

/-- Numbers of up to 53 bits lie below those that have a greater exponent and a leading bit. -/
theorem scaled_lt {significand : Nat} {d e : Int} (hsignificand : significand < 2 * hiddenBit)
    (hless : d < e) : (significand : ℚ) * 2 ^ d < hiddenBit * 2 ^ e := by
  have hupper : (significand : ℚ) < 2 * hiddenBit := by exact_mod_cast hsignificand
  have hpower : (2 : ℚ) ^ (d + 1) ≤ 2 ^ e := zpow_le_zpow_right₀ one_le_two hless
  calc (significand : ℚ) * 2 ^ d < 2 * hiddenBit * 2 ^ d := by gcongr
    _ = hiddenBit * 2 ^ (d + 1) := by rw [zpow_add_one₀ two_ne_zero]; ring
    _ ≤ hiddenBit * 2 ^ e := by gcongr

/-! ## Integral values -/

variable {x : Float}

theorem cast_scale {significand : Nat} {exponent : Int}
    (hintegral : 0 ≤ exponent ∨ Nat.pow 2 (-exponent).toNat ∣ significand) :
    (scale significand exponent : ℚ) = significand * 2 ^ exponent := by
  rw [scale]
  split
  next hexponent =>
    obtain ⟨e, rfl⟩ := Int.eq_ofNat_of_zero_le hexponent
    simp
  next hexponent =>
    obtain ⟨e, he⟩ : ∃ e : Nat, exponent = -e := ⟨(-exponent).toNat, by omega⟩
    have hdvd := hintegral.resolve_left hexponent
    subst he
    rw [Nat.cast_div hdvd (by simp)]
    simp [div_eq_mul_inv]

theorem dvd_of_eq_intCast {significand : Nat} {exponent n : Int}
    (hn : (significand : ℚ) * 2 ^ exponent = n) (hexponent : ¬ 0 ≤ exponent) :
    Nat.pow 2 (-exponent).toNat ∣ significand := by
  obtain ⟨e, he⟩ : ∃ e : Nat, exponent = -e := ⟨(-exponent).toNat, by omega⟩
  subst he
  have hscaled : (significand : ℤ) = n * 2 ^ e := by
    rw [zpow_neg, zpow_natCast, ← div_eq_mul_inv, div_eq_iff (by positivity)] at hn
    exact_mod_cast hn
  have hdvd : ((2 ^ e : Nat) : ℤ) ∣ significand := ⟨n, by rw [hscaled]; push_cast; ring⟩
  simpa using Int.natCast_dvd_natCast.mp hdvd

theorem isIntegral_of_parts {negative : Bool} {significand : Nat} {exponent : Int}
    (hparts : parts x = .finite negative significand exponent) :
    isIntegral x = true ↔ 0 ≤ exponent ∨ Nat.pow 2 (-exponent).toNat ∣ significand := by
  simp only [isIntegral, hparts, Bool.or_eq_true, decide_eq_true_eq, beq_iff_eq,
    Nat.dvd_iff_mod_eq_zero]

theorem truncate?_of_parts {negative : Bool} {significand : Nat} {exponent : Int}
    (hparts : parts x = .finite negative significand exponent) :
    truncate? x = some (if negative then -(scale significand exponent : Int)
      else scale significand exponent) := by
  simp only [truncate?, hparts]

/-- A double is integral if it stands for an integer, and that is what it is truncated to. -/
theorem value?_eq_intCast {n : ℤ} :
    value? x = some (n : ℚ) ↔ isIntegral x = true ∧ truncate? x = some n := by
  cases hparts : parts x with
  | finite negative significand exponent =>
      rw [isIntegral_of_parts hparts, truncate?_of_parts hparts, value?, hparts, Parts.value?,
        Option.some.injEq, Option.some.injEq]
      constructor
      · intro hn
        have hscaled : (significand : ℚ) * 2 ^ exponent =
            ((if negative then -n else n : ℤ) : ℚ) := by
          cases negative
          · simpa using hn
          · simpa [neg_eq_iff_eq_neg] using hn
        have hintegral := or_iff_not_imp_left.mpr (dvd_of_eq_intCast hscaled)
        refine ⟨hintegral, ?_⟩
        rw [← cast_scale hintegral] at hscaled
        have hscale : (scale significand exponent : ℤ) = if negative then -n else n := by
          exact_mod_cast hscaled
        cases negative <;> simp_all
      · rintro ⟨hintegral, rfl⟩
        rw [← cast_scale hintegral]
        cases negative <;> simp
  | _ => simp [value?, isIntegral, hparts, Parts.value?]

end Binary64

namespace Number

open Binary64

/-- A double that stands for an integer is normalized to it. -/
theorem normalize_of_value?_intCast {x : Float} {n : ℤ} (hx : value? x = some (n : ℚ)) :
    normalize (.float x) = .int n := by
  obtain ⟨hintegral, htruncate⟩ := value?_eq_intCast.mp hx
  simp only [normalize, hintegral, if_true, htruncate]

theorem normalize_of_not_integral {x : Float} (hx : isIntegral x = false) :
    normalize (.float x) = .float x := by
  rw [Number.normalize, if_neg (Bool.eq_false_iff.mp hx)]

end Number

end StackScript
