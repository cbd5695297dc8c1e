import StackScript.Number.Compare
import StackScript.Proofs.Numeral.Finite

/-! # The order of finite numbers

Finite numbers, integers and doubles alike, compare as the rational numbers that they stand for.
-/

namespace StackScript

namespace Binary64

open Float.Model (UnpackedFloat)

variable {x y : Float} {p q : ℚ}

theorem compare_map {α β : Type} [LinearOrder α] [LinearOrder β] {f : α → β} (hf : StrictMono f)
    (a b : α) : compare (f a) (f b) = compare a b := by
  rw [← cmp_eq_compare, ← cmp_eq_compare, hf.cmp_map_eq]

theorem compare_neg (p q : ℚ) : compare (-p) (-q) = (compare p q).swap := by
  have hanti : StrictAnti fun k : ℚ => -k := fun _ _ h => neg_lt_neg h
  rw [← cmp_eq_compare, ← cmp_eq_compare, cmp_swap]
  exact hanti.cmp_map_eq p q

/-- The significands of doubles have their leading bit, except with the least exponent. -/
structure IsCanonical (significand : Nat) (exponent : Int) : Prop where
  lt : significand < 2 * hiddenBit
  le : leastExponent ≤ exponent
  leading : leastExponent < exponent → hiddenBit ≤ significand

theorem isCanonical_of_parts {negative : Bool} {significand : Nat} {exponent : Int}
    (hparts : parts x = .finite negative significand exponent) :
    IsCanonical significand exponent := by
  have hlt := (lt_of_parts hparts).1
  unfold parts at hparts
  simp only [beq_iff_eq] at hparts
  split at hparts
  next => split at hparts <;> cases hparts
  next =>
    split at hparts
    next =>
      cases hparts
      exact ⟨hlt, le_rfl, fun h => absurd h (lt_irrefl _)⟩
    next =>
      cases hparts
      exact ⟨hlt, by omega, fun _ => Nat.le_add_right _ _⟩

/-! ## Doubles -/

section Canonical

variable {m n : Nat} {d e : Int}

theorem scaled_lt_of_lt (hm : IsCanonical m d) (hn : IsCanonical n e) (hless : d < e) :
    (m : ℚ) * 2 ^ d < n * 2 ^ e := by
  have hlower : (hiddenBit : ℚ) ≤ n := by exact_mod_cast hn.leading (hm.le.trans_lt hless)
  calc (m : ℚ) * 2 ^ d < hiddenBit * 2 ^ e := scaled_lt hm.lt hless
    _ ≤ n * 2 ^ e := by gcongr

/-- Doubles compare by their exponents first. -/
theorem compare_scaled (hm : IsCanonical m d) (hn : IsCanonical n e) :
    (compare d e).then (compare m n) = compare ((m : ℚ) * 2 ^ d) (n * 2 ^ e) := by
  rcases lt_trichotomy d e with hless | rfl | hgreater
  · rw [compare_lt_iff_lt.mpr hless, compare_lt_iff_lt.mpr (scaled_lt_of_lt hm hn hless)]
    rfl
  · have hmono : StrictMono fun k : Nat => (k : ℚ) * 2 ^ d :=
      fun j k hjk => mul_lt_mul_of_pos_right (Nat.cast_lt.mpr hjk) (by positivity)
    rw [compare_eq_iff_eq.mpr rfl, ← compare_map hmono]
    rfl
  · rw [compare_gt_iff_gt.mpr hgreater, compare_gt_iff_gt.mpr (scaled_lt_of_lt hn hm hgreater)]
    rfl

end Canonical

/-- What a finite double is unpacked to. -/
inductive Unpacks : UnpackedFloat → ℚ → Prop
  | zero (sign) : Unpacks (.zero sign) 0
  | positive {significand exponent} (hpos) (h : IsCanonical significand exponent) :
      Unpacks (.finite .positive significand exponent hpos) (significand * 2 ^ exponent)
  | negative {significand exponent} (hpos) (h : IsCanonical significand exponent) :
      Unpacks (.finite .negative significand exponent hpos) (-(significand * 2 ^ exponent))

theorem unpacks_of_value? (hx : value? x = some p) : Unpacks x.toModel.unpack p := by
  have hparts := parts_eq x
  rw [value?, hparts] at hx
  cases hu : x.toModel.unpack with
  | notANumber => simp [hu, Parts.ofUnpacked, Parts.value?] at hx
  | infinity sign => simp [hu, Parts.ofUnpacked, Parts.value?] at hx
  | zero sign =>
      simp only [hu, Parts.ofUnpacked, Parts.value?, Option.some.injEq] at hx
      have hzero : p = 0 := by simp [← hx]
      exact hzero ▸ .zero sign
  | finite sign significand exponent hpos =>
      rw [hu] at hparts hx
      have hcanonical := isCanonical_of_parts hparts
      simp only [Parts.ofUnpacked, Parts.value?, Option.some.injEq] at hx
      cases sign with
      | positive =>
          rw [isMinus, if_neg Bool.false_ne_true, one_mul] at hx
          exact hx ▸ .positive hpos hcanonical
      | negative =>
          rw [isMinus, if_pos rfl, neg_one_mul] at hx
          exact hx ▸ .negative hpos hcanonical

theorem compare_unpacks {u w : UnpackedFloat} (hu : Unpacks u p) (hw : Unpacks w q) :
    u.compare w = some (compare p q) := by
  have hpositive {m : Nat} {e : Int} (hm : 0 < m) : 0 < (m : ℚ) * 2 ^ e := by positivity
  cases hu with
  | zero =>
      cases hw with
      | zero => rfl
      | positive hn => rw [compare_lt_iff_lt.mpr (hpositive hn)]; rfl
      | negative hn => rw [compare_gt_iff_gt.mpr (neg_neg_of_pos (hpositive hn))]; rfl
  | positive hm hd =>
      cases hw with
      | zero => rw [compare_gt_iff_gt.mpr (hpositive hm)]; rfl
      | positive hn he => rw [← compare_scaled hd he]; rfl
      | negative hn =>
          rw [compare_gt_iff_gt.mpr ((neg_neg_of_pos (hpositive hn)).trans (hpositive hm))]; rfl
  | negative hm hd =>
      cases hw with
      | zero => rw [compare_lt_iff_lt.mpr (neg_neg_of_pos (hpositive hm))]; rfl
      | positive hn =>
          rw [compare_lt_iff_lt.mpr ((neg_neg_of_pos (hpositive hm)).trans (hpositive hn))]; rfl
      | negative hn he =>
          rw [compare_neg, ← compare_scaled hd he]
          rfl

/-! ## Integers and doubles -/

theorem compareInt_eq (n : Int) (hx : value? x = some q) : compareInt n x = compare (n : ℚ) q := by
  obtain ⟨negative, significand, exponent, hparts, rfl⟩ := value?_eq_some.mp hx
  have hsign : (((if negative then -significand else significand : Int)) : ℚ) =
      (if negative then -1 else 1) * significand := by cases negative <;> simp
  have hcast : StrictMono fun k : Int => (k : ℚ) := Int.cast_strictMono
  simp only [compareInt, hparts]
  rw [← mul_assoc, ← hsign]
  split
  next hexponent =>
    obtain ⟨e, rfl⟩ := Int.eq_ofNat_of_zero_le hexponent
    rw [← compare_map hcast]
    simp
  next hexponent =>
    obtain ⟨e, rfl⟩ : ∃ e : Nat, exponent = -e := ⟨(-exponent).toNat, by omega⟩
    have hpos : (0 : ℚ) < 2 ^ e := by positivity
    rw [← compare_map hcast, ← cmp_eq_compare (n : ℚ), ← cmp_mul_pos_right hpos, cmp_eq_compare,
      mul_assoc, zpow_neg, zpow_natCast, inv_mul_cancel₀ hpos.ne']
    simp

end Binary64

namespace Number

open Binary64

/-- The number that a finite number stands for. -/
def value? : Number → Option ℚ
  | .int n => some n
  | .float x => Binary64.value? x

theorem isNaN_eq_false {x : Float} {q : ℚ} (hx : Binary64.value? x = some q) : x.isNaN = false := by
  change x.toModel.unpack.isNaN = false
  generalize hu : x.toModel.unpack = u
  cases hu ▸ unpacks_of_value? hx <;> rfl

theorem compare?_float {x y : Float} {p q : ℚ} (hx : Binary64.value? x = some p)
    (hy : Binary64.value? y = some q) : compare? (.float x) (.float y) = some (compare p q) := by
  have hlt (x y : Float) : x < y ↔ (x.toModel.unpack.compare y.toModel.unpack == some .lt) = true :=
    decide_eq_true_iff
  have hbeq : (x == y) = (x.toModel.unpack.compare y.toModel.unpack == some .eq) := rfl
  have hless : x < y ↔ p < q := by
    rw [hlt, compare_unpacks (unpacks_of_value? hx) (unpacks_of_value? hy), beq_iff_eq,
      Option.some.injEq, compare_lt_iff_lt]
  have hgreater : y < x ↔ q < p := by
    rw [hlt, compare_unpacks (unpacks_of_value? hy) (unpacks_of_value? hx), beq_iff_eq,
      Option.some.injEq, compare_lt_iff_lt]
  have hequal : (x == y) = true ↔ p = q := by
    rw [hbeq, compare_unpacks (unpacks_of_value? hx) (unpacks_of_value? hy), beq_iff_eq,
      Option.some.injEq, compare_eq_iff_eq]
  simp only [compare?, hless, hequal, hgreater]
  rcases lt_trichotomy p q with h | rfl | h
  · rw [if_pos h, compare_lt_iff_lt.mpr h]
  · rw [if_neg (lt_irrefl p), if_pos rfl, compare_eq_iff_eq.mpr rfl]
  · rw [if_neg h.not_gt, if_neg h.ne', if_pos h, compare_gt_iff_gt.mpr h]

/-- Finite numbers compare as the rationals that they stand for. -/
theorem compare?_eq {a b : Number} {p q : ℚ} (ha : a.value? = some p) (hb : b.value? = some q) :
    compare? a b = some (compare p q) := by
  cases a with
  | int m =>
      cases ha
      cases b with
      | int n =>
          cases hb
          have hcast : StrictMono fun k : Int => (k : ℚ) := Int.cast_strictMono
          rw [compare?, compare_map hcast]
      | float y =>
          rw [compare?, isNaN_eq_false hb, compareInt_eq _ hb]
          rfl
  | float x =>
      cases b with
      | int n =>
          cases hb
          rw [compare?, isNaN_eq_false ha, compareInt_eq _ ha, ← cmp_eq_compare, cmp_swap,
            cmp_eq_compare]
          rfl
      | float y => exact compare?_float ha hb

theorem gt_iff {a b : Number} {p q : ℚ} (ha : a.value? = some p) (hb : b.value? = some q) :
    gt a b = true ↔ q < p := by
  rw [gt, compare?_eq ha hb, beq_iff_eq, Option.some.injEq, compare_gt_iff_gt]

/-! ## Greatest numbers -/

/-- The number is finite and greater than `bound`. -/
def Exceeds (bound : ℚ) (n : Number) : Prop := ∃ q, n.value? = some q ∧ bound < q

theorem exceeds_iff {bound q : ℚ} {n : Number} (hn : n.value? = some q) :
    n.Exceeds bound ↔ bound < q := by
  simp [Exceeds, hn]

theorem value?_abs {n : Number} {q : ℚ} (hn : n.value? = some q) : n.abs.value? = some |q| := by
  cases n with
  | int n =>
      cases hn
      rw [abs, value?, Int.natCast_natAbs, Int.cast_abs]
  | float x => exact value?_withSign false hn

/-- The greatest of some numbers exceeds what one of them exceeds. -/
theorem exists_maximum {best : Number} {b : ℚ} {ns : List Number} (hbest : best.value? = some b)
    (hfinite : ∀ n ∈ ns, ∃ q, n.value? = some q) :
    ∃ q, (maximum (best :: ns)).value? = some q ∧
      ∀ bound, bound < q ↔ ∃ n ∈ best :: ns, n.Exceeds bound := by
  induction ns generalizing best b with
  | nil => exact ⟨b, hbest, fun bound => by simp [exceeds_iff hbest]⟩
  | cons n rest ih =>
      obtain ⟨⟨r, hr⟩, hrest⟩ := List.forall_mem_cons.mp hfinite
      have hstep : maximum (best :: n :: rest) =
          maximum ((if gt n best then n else best) :: rest) := rfl
      simp only [gt_iff hr hbest] at hstep
      rw [hstep]
      split
      next hgreater =>
        obtain ⟨q, hq, hexceeds⟩ := ih hr hrest
        refine ⟨q, hq, fun bound => (hexceeds bound).trans ?_⟩
        have hbelow : bound < b → bound < r := fun h => h.trans hgreater
        simp only [List.exists_mem_cons_iff, exceeds_iff hbest, exceeds_iff hr]
        grind
      next hgreater =>
        obtain ⟨q, hq, hexceeds⟩ := ih hbest hrest
        refine ⟨q, hq, fun bound => (hexceeds bound).trans ?_⟩
        have hbelow : bound < r → bound < b := fun h => h.trans_le (not_lt.mp hgreater)
        simp only [List.exists_mem_cons_iff, exceeds_iff hbest, exceeds_iff hr]
        grind

end Number

end StackScript
