import StackScript.Number.Basic
import StackScript.Proofs.Numeral.Integer

/-! # Written doubles

Besides digits a written double holds a point, signs, and the letters of its exponent or of the
word for what is no finite number. A double without a fraction is an integer of some three
hundred digits at most, so that every double can be written.
-/

namespace StackScript

/-! ## Code points -/

namespace Numeral

/-- What written doubles are made of besides digits. -/
def marks : Text := "+-.aefin".toList

section CodePoints

variable {c : Char} {digits : Text}

theorem not_mem_ofNat (hdigit : c.isDigit = false) (n : Nat) : c ∉ ofNat n := fun hmem => by
  rw [isDigit_of_mem_ofNat hmem] at hdigit
  cases hdigit

theorem not_mem_significantDigits (hdigit : c.isDigit = false) (n : Nat) :
    c ∉ significantDigits n := by
  intro hmem
  rw [significantDigits, List.mem_reverse] at hmem
  exact not_mem_ofNat hdigit n (List.mem_reverse.mp ((List.dropWhile_sublist _).subset hmem))

theorem not_mem_positional (hdigit : c.isDigit = false) (hmark : c ∉ marks)
    (hdigits : c ∉ digits) (point : Int) : c ∉ positional digits point := by
  have hzero : c ≠ '0' := by
    rintro rfl
    cases hdigit
  have hpoint : c ≠ '.' := fun h => hmark (h ▸ by decide)
  have htake (count : Nat) : c ∉ digits.take count := fun h => hdigits (List.mem_of_mem_take h)
  have hdrop (count : Nat) : c ∉ digits.drop count := fun h => hdigits (List.mem_of_mem_drop h)
  unfold positional
  simp only
  split
  · simp [hdigits, hzero, hpoint]
  · split
    · simp [hdigits, hzero, hpoint]
    · simp [htake, hdrop, hpoint]

theorem not_mem_scientific (hdigit : c.isDigit = false) (hmark : c ∉ marks)
    (hdigits : c ∉ digits) (exponent : Int) : c ∉ scientific digits exponent := by
  have hne {m : Char} (hm : m ∈ marks) : c ≠ m := fun h => hmark (h ▸ hm)
  have hzero : c ≠ '0' := by
    rintro rfl
    cases hdigit
  have htake : c ∉ digits.take 1 := fun h => hdigits (List.mem_of_mem_take h)
  have hfraction : c ∉ if digits.length ≤ 1 then [] else '.' :: digits.drop 1 := by
    split
    · simp
    · simp only [List.mem_cons, not_or]
      exact ⟨hne (by decide), fun h => hdigits (List.mem_of_mem_drop h)⟩
  have hsize := not_mem_ofNat hdigit exponent.natAbs
  have hpadded : c ∉ if (ofNat exponent.natAbs).length < 2 then '0' :: ofNat exponent.natAbs
      else ofNat exponent.natAbs := by
    split
    · simp [hzero, hsize]
    · exact hsize
  have hsign : c ≠ if exponent < 0 then '-' else '+' := by
    split
    · exact hne (by decide)
    · exact hne (by decide)
  simp only [scientific, List.mem_append, List.mem_cons, not_or]
  exact ⟨⟨htake, hfraction⟩, hne (by decide), hsign, hpadded⟩

theorem not_mem_ofFloat (hdigit : c.isDigit = false) (hmark : c ∉ marks) (x : Float) :
    c ∉ ofFloat x := by
  have hword {word : Text} (hall : word.all (fun m => m.isDigit || marks.contains m) = true) :
      c ∉ word := by
    intro hmem
    have h := List.all_eq_true.mp hall c hmem
    rw [hdigit, Bool.false_or, List.contains_iff_mem] at h
    exact hmark h
  have hsign (negative : Bool) {t : Text} (ht : c ∉ t) : c ∉ if negative then '-' :: t else t := by
    have hminus : c ≠ '-' := fun h => hmark (h ▸ by decide)
    cases negative <;> simp [ht, hminus]
  have hsignificant := not_mem_significantDigits hdigit
  unfold ofFloat
  simp only
  split
  · exact hword (by decide)
  · exact hsign _ (hword (by decide))
  · exact hsign _ (hword (by decide))
  · apply hsign
    split
    · exact not_mem_positional hdigit hmark (hsignificant _) _
    · exact not_mem_scientific hdigit hmark (hsignificant _) _

theorem mem_ofFloat {x : Float} (hmem : c ∈ ofFloat x) : c.isDigit = true ∨ c ∈ marks := by
  by_contra hother
  rw [not_or, Bool.not_eq_true] at hother
  exact not_mem_ofFloat hother.1 hother.2 x hmem

end CodePoints

end Numeral

/-! ## Size -/

namespace Binary64

variable {x : Float} {negative : Bool} {significand : Nat} {exponent : Int}

/-- The exponent of the greatest doubles. -/
def greatestExponent : Nat := 971

/-- All doubles that are finite are less than this. -/
def magnitudeBound : Nat := Nat.pow 2 53 * Nat.pow 2 greatestExponent

theorem lt_of_parts (hparts : parts x = .finite negative significand exponent) :
    significand < Nat.pow 2 53 ∧ exponent ≤ greatestExponent := by
  have hfraction (n : Nat) : n % Nat.pow 2 52 < Nat.pow 2 52 := Nat.mod_lt n (by decide)
  have hfield (n : Nat) : n % Nat.pow 2 11 < Nat.pow 2 11 := Nat.mod_lt n (by decide)
  have htwice : Nat.pow 2 53 = hiddenBit + Nat.pow 2 52 := by decide
  have helfth : Nat.pow 2 11 = 2048 := by decide
  unfold parts at hparts
  simp only [beq_iff_eq] at hparts
  split at hparts
  next => split at hparts <;> cases hparts
  next hfinite =>
    have hfield' := hfield (x.toBits.toNat / Nat.pow 2 52)
    have hfraction' := hfraction x.toBits.toNat
    split at hparts
    next =>
      cases hparts
      exact ⟨by omega, by decide⟩
    next =>
      cases hparts
      refine ⟨by omega, ?_⟩
      rw [leastExponent, greatestExponent]
      omega

theorem scale_lt {bound : Nat} (hsignificand : significand < Nat.pow 2 53)
    (hexponent : exponent ≤ bound) :
    scale significand exponent < Nat.pow 2 53 * Nat.pow 2 bound := by
  have hpos : 0 < Nat.pow 2 bound := Nat.two_pow_pos bound
  unfold scale
  split
  · have hpower : Nat.pow 2 exponent.toNat ≤ Nat.pow 2 bound :=
      Nat.pow_le_pow_right (by decide) (by omega)
    exact Nat.mul_lt_mul_of_lt_of_le hsignificand hpower hpos
  · calc significand / Nat.pow 2 (-exponent).toNat
        ≤ significand := Nat.div_le_self _ _
      _ < Nat.pow 2 53 := hsignificand
      _ ≤ Nat.pow 2 53 * Nat.pow 2 bound := Nat.le_mul_of_pos_right _ hpos

theorem natAbs_lt_of_truncate? {n : Int} (hn : truncate? x = some n) :
    n.natAbs < magnitudeBound := by
  unfold truncate? at hn
  split at hn
  next negative significand exponent hparts =>
    have hbounds := lt_of_parts hparts
    have hscale := scale_lt hbounds.1 hbounds.2
    simp only [Option.some.injEq] at hn
    subst hn
    split
    · rwa [Int.natAbs_neg, Int.natAbs_natCast]
    · rwa [Int.natAbs_natCast]
  next => cases hn

end Binary64

namespace Number

theorem normalize_float (x : Float) :
    normalize (.float x) = .float x ∨
      ∃ n, normalize (.float x) = .int n ∧ Binary64.truncate? x = some n := by
  rw [normalize]
  split
  · split
    next n hn => exact Or.inr ⟨n, rfl, hn⟩
    next => exact Or.inl rfl
  · exact Or.inl rfl

/-- Every double can be written. -/
theorem exists_write_float (x : Float) : ∃ t, (Number.float x).write = .ok t := by
  rw [write]
  rcases normalize_float x with hsame | ⟨n, hint, htruncate⟩
  · exact ⟨Numeral.ofFloat x, by rw [hsame, inspect]⟩
  · have hshort : Numeral.isTooLong n = false := by
      have hless := Binary64.natAbs_lt_of_truncate? htruncate
      have hbound : Binary64.magnitudeBound ≤ Nat.pow 10 Numeral.digitLimit := by decide +kernel
      rw [Numeral.isTooLong, decide_eq_false_iff_not, Nat.not_le]
      exact Nat.lt_of_lt_of_le hless hbound
    exact ⟨Numeral.ofInt n, by simp [hint, inspect, writeInt, hshort]⟩

/-- A number is shown with digits and marks only. -/
theorem mem_inspect {n : Number} {t : Text} (hshown : n.inspect = .ok t) {c : Char}
    (hc : c ∈ t) : c.isDigit = true ∨ c ∈ Numeral.marks := by
  cases n with
  | int n =>
      rw [inspect, writeInt] at hshown
      split at hshown
      next => cases hshown
      next =>
        cases hshown
        exact (Numeral.mem_ofInt hc).imp_right fun hminus => by rw [hminus]; decide
  | float x =>
      cases hshown
      exact Numeral.mem_ofFloat hc

end Number

end StackScript
