import Mathlib.Data.List.TakeWhile
import Mathlib.Tactic.Common
import StackScript.Token.Lexer
import StackScript.Value.Coerce

/-! # Written integers

The written form of an integer is a minus sign, if it is negative, and digits without leading
zeros. Wherever integers are read, it gives the integer back, and so does any numeral that
differs from it in leading zeros only.
-/

namespace StackScript

/-- What holds of each of the ten digits holds of every digit. -/
theorem Text.forall_isDigit {p : Char → Prop} (hp : ∀ n < 10, p (Char.ofNat (48 + n))) {c : Char}
    (hdigit : c.isDigit = true) : p c := by
  rw [Char.isDigit_iff_toNat] at hdigit
  have hzero : '0'.toNat = 48 := rfl
  have hnine : '9'.toNat = 57 := rfl
  rw [hzero, hnine] at hdigit
  have hc := hp (c.toNat - 48) (by omega)
  rwa [Nat.add_sub_cancel' hdigit.1, Char.ofNat_toNat] at hc

theorem Text.not_isBlank_of_isDigit {c : Char} (hdigit : c.isDigit = true) : ¬ isBlank c :=
  forall_isDigit (p := fun c => ¬ isBlank c) (by decide) hdigit

theorem Token.isWordChar_of_isDigit {c : Char} (hdigit : c.isDigit = true) :
    isWordChar c = true :=
  Text.forall_isDigit (p := fun c => isWordChar c = true) (by decide) hdigit

namespace Numeral

/-! ## Digits -/

theorem isDigit_of_mem_ofNat {n : Nat} {c : Char} (hc : c ∈ ofNat n) : c.isDigit = true :=
  Nat.isDigit_of_mem_toDigits (by decide) (by decide) hc

theorem ofNat_ne_nil (n : Nat) : ofNat n ≠ [] := Nat.toDigits_ne_nil

@[simp]
theorem natValue_ofNat (n : Nat) : natValue (ofNat n) = n := Nat.ofDigitChars_ten_toDigits

/-- Only zero is written with a leading zero. -/
theorem head?_ofNat_ne_zero {n : Nat} (hn : 0 < n) : (ofNat n).head? ≠ some '0' := by
  induction n using Nat.strongRecOn with
  | ind n ih =>
    by_cases hless : n < 10
    · rw [ofNat, Nat.toDigits_of_lt_base hless, List.head?_cons]
      intro hzero
      have hvalue := Nat.digitChar_eq_zero.mp (Option.some.inj hzero)
      omega
    · -- the digits of the quotient come first
      have hquotient := ih (n / 10) (by omega) (by omega)
      rw [ofNat, Nat.toDigits_of_base_le (by decide) (by omega), List.head?_append]
      cases hfirst : (Nat.toDigits 10 (n / 10)).head? with
      | none => exact absurd (List.head?_eq_none_iff.mp hfirst) Nat.toDigits_ne_nil
      | some c =>
          rw [ofNat, hfirst] at hquotient
          exact hquotient

theorem length_ofNat_le_iff {n count : Nat} (hcount : 0 < count) :
    (ofNat n).length ≤ count ↔ n < Nat.pow 10 count :=
  Nat.length_toDigits_le_iff (by decide) hcount

theorem length_ofNat_le {n : Int} (hshort : isTooLong n = false) :
    (ofNat n.natAbs).length ≤ digitLimit := by
  rw [isTooLong, decide_eq_false_iff_not, Nat.not_le] at hshort
  exact (length_ofNat_le_iff (by decide)).mpr hshort

/-! ## Signs -/

/-- Decimal digits, one at least. -/
structure IsDigits (t : Text) : Prop where
  ne_nil : t ≠ []
  isDigit : ∀ c ∈ t, c.isDigit = true

instance (t : Text) : Decidable (IsDigits t) :=
  decidable_of_iff (t ≠ [] ∧ t.all Char.isDigit = true)
    ⟨fun h => ⟨h.1, List.all_eq_true.mp h.2⟩,
      fun h => ⟨h.ne_nil, List.all_eq_true.mpr h.isDigit⟩⟩

/-- Digits that are not too many to be converted. -/
structure IsConvertible (t : Text) : Prop extends IsDigits t where
  length_le : t.length ≤ digitLimit

instance (t : Text) : Decidable (IsConvertible t) :=
  decidable_of_iff (IsDigits t ∧ t.length ≤ digitLimit)
    ⟨fun h => ⟨h.1, h.2⟩, fun h => ⟨h.toIsDigits, h.length_le⟩⟩

/-- Digits, after a minus sign if the number is negative. -/
def signed (negative : Bool) (digits : Text) : Text := if negative then '-' :: digits else digits

section Signed

variable {t : Text} (negative : Bool)

theorem IsDigits.ne_cons (ht : IsDigits t) {c : Char} (hc : c.isDigit = false) (rest : Text) :
    t ≠ c :: rest := by
  intro h
  have hdigit := ht.isDigit c (h ▸ List.mem_cons_self)
  rw [hc] at hdigit
  cases hdigit

theorem splitSign_signed (ht : IsDigits t) : splitSign (signed negative t) = (negative, t) := by
  cases negative with
  | true => rfl
  | false =>
      unfold signed splitSign
      simp only [Bool.false_eq_true, if_false]
      split
      next rest => exact absurd rfl (ht.ne_cons (by decide) rest)
      next rest => exact absurd rfl (ht.ne_cons (by decide) rest)
      next => rfl

theorem intValue_signed (ht : IsDigits t) :
    intValue (signed negative t) = if negative then -(natValue t : Int) else natValue t := by
  rw [intValue, splitSign_signed negative ht]

theorem getLast?_signed (ht : IsDigits t) :
    ∃ c, (signed negative t).getLast? = some c ∧ c.isDigit = true := by
  refine ⟨t.getLast ht.ne_nil, ?_, ht.isDigit _ (List.getLast_mem ht.ne_nil)⟩
  cases negative with
  | true => rw [signed, if_pos rfl, List.getLast?_cons_of_ne_nil ht.ne_nil,
      List.getLast?_eq_some_getLast ht.ne_nil]
  | false => exact List.getLast?_eq_some_getLast ht.ne_nil

end Signed

theorem isDigits_ofNat (n : Nat) : IsDigits (ofNat n) :=
  ⟨ofNat_ne_nil n, fun _ hc => isDigit_of_mem_ofNat hc⟩

theorem isConvertible_ofNat_of_le {m n : Nat} (hn : (ofNat n).length ≤ digitLimit) (hle : m ≤ n) :
    IsConvertible (ofNat m) := by
  have hlimit : 0 < digitLimit := by decide
  rw [length_ofNat_le_iff hlimit] at hn
  exact ⟨isDigits_ofNat m, (length_ofNat_le_iff hlimit).mpr (Nat.lt_of_le_of_lt hle hn)⟩

theorem natValue_lt {t : Text} (hdigits : ∀ c ∈ t, c.isDigit = true) :
    natValue t < Nat.pow 10 t.length := by
  induction t with
  | nil => decide
  | cons c rest ih =>
      obtain ⟨hc, hrest⟩ := List.forall_mem_cons.mp hdigits
      have hdigit : c.toNat - '0'.toNat ≤ 9 :=
        Text.forall_isDigit (p := fun c => c.toNat - '0'.toNat ≤ 9) (by decide) hc
      have hless := ih hrest
      rw [natValue, Nat.ofDigitChars_cons, Nat.ofDigitChars_eq_ofDigitChars_zero, ← natValue]
      simp only [Nat.pow_eq, List.length_cons, Nat.pow_succ, Nat.mul_zero, Nat.zero_add] at hless ⊢
      have hscaled := Nat.mul_le_mul_left (10 ^ rest.length) hdigit
      omega

/-- Leading zeros apart, the digits are those of the number that they stand for. -/
theorem IsConvertible.ofNat_natValue {t : Text} (ht : IsConvertible t) :
    IsConvertible (ofNat (natValue t)) := by
  have hpos : 0 < t.length := List.length_pos_iff.mpr ht.ne_nil
  have hlength := (length_ofNat_le_iff hpos).mpr (natValue_lt ht.isDigit)
  exact ⟨isDigits_ofNat _, hlength.trans ht.length_le⟩

theorem ofInt_of_neg {n : Int} (hneg : n < 0) : ofInt n = '-' :: ofNat n.natAbs := if_pos hneg

theorem ofInt_of_not_neg {n : Int} (hneg : ¬ n < 0) : ofInt n = ofNat n.natAbs := if_neg hneg

theorem ofInt_eq_signed (n : Int) : ofInt n = signed (decide (n < 0)) (ofNat n.natAbs) := by
  by_cases hneg : n < 0
  · rw [ofInt_of_neg hneg, decide_eq_true hneg]
    rfl
  · rw [ofInt_of_not_neg hneg, decide_eq_false hneg]
    rfl

theorem intValue_ofInt (n : Int) : intValue (ofInt n) = n := by
  rw [ofInt_eq_signed, intValue_signed _ (isDigits_ofNat _)]
  simp only [decide_eq_true_eq, natValue_ofNat]
  split <;> omega

theorem mem_ofInt {n : Int} {c : Char} (hc : c ∈ ofInt n) : c.isDigit = true ∨ c = '-' := by
  by_cases hneg : n < 0
  · rw [ofInt_of_neg hneg, List.mem_cons] at hc
    exact hc.symm.imp_left isDigit_of_mem_ofNat
  · rw [ofInt_of_not_neg hneg] at hc
    exact Or.inl (isDigit_of_mem_ofNat hc)

theorem ofInt_ne_nil (n : Int) : ofInt n ≠ [] := by
  by_cases hneg : n < 0
  · rw [ofInt_of_neg hneg]
    exact List.cons_ne_nil _ _
  · rw [ofInt_of_not_neg hneg]
    exact ofNat_ne_nil _

theorem not_isBlank_of_mem_ofInt {n : Int} {c : Char} (hc : c ∈ ofInt n) : ¬ Text.isBlank c := by
  rcases mem_ofInt hc with hdigit | rfl
  · exact Text.not_isBlank_of_isDigit hdigit
  · decide

theorem getLast?_ofInt (n : Int) : ∃ c, (ofInt n).getLast? = some c ∧ c.isDigit = true := by
  rw [ofInt_eq_signed]
  exact getLast?_signed _ (isDigits_ofNat _)

end Numeral

/-! ## Reading them back -/

namespace Number

open Numeral

section Signed

variable {t : Text} (negative : Bool)

theorem dropFinalLineFeed_signed (ht : IsDigits t) :
    Text.dropFinalLineFeed (signed negative t) = signed negative t := by
  obtain ⟨c, hlast, hdigit⟩ := getLast?_signed negative ht
  rw [Text.dropFinalLineFeed, hlast, if_neg]
  intro h
  rw [Option.some_beq_some, beq_iff_eq] at h
  subst h
  cases hdigit

theorem isIntegerNumeral_signed (ht : IsDigits t) :
    isIntegerNumeral (signed negative t) = true := by
  have hdigits : t.all Char.isDigit = true := List.all_eq_true.mpr ht.isDigit
  have hsome : t.isEmpty = false := by simp [ht.ne_nil]
  rw [isIntegerNumeral, dropFinalLineFeed_signed negative ht]
  cases negative with
  | true => simp only [signed, if_true, hdigits, hsome, Bool.not_false, Bool.and_self]
  | false =>
      simp only [signed, Bool.false_eq_true, if_false]
      split
      next rest => exact absurd rfl (ht.ne_cons (by decide) rest)
      next => simp only [hdigits, hsome, Bool.not_false, Bool.and_self]

/-- Digits up to the limit, with or without a minus sign, are read as an integer. -/
theorem read?_signed (ht : IsDigits t) (hshort : t.length ≤ digitLimit) :
    read? (signed negative t) =
      .ok (some (.int (if negative then -(natValue t : Int) else natValue t))) := by
  rw [read?, if_pos (isIntegerNumeral_signed negative ht), dropFinalLineFeed_signed negative ht,
    readInt, splitSign_signed negative ht, if_neg (Nat.not_lt.mpr hshort),
    intValue_signed negative ht]
  rfl

theorem isNumeral_signed (ht : IsDigits t) : isNumeral (signed negative t) = true := by
  have hspan : spanDigits t = (t, []) := by
    rw [spanDigits, List.takeWhile_eq_self_iff.mpr ht.isDigit,
      List.dropWhile_eq_nil_iff.mpr ht.isDigit]
  rw [isNumeral, dropFinalLineFeed_signed negative ht, splitSign_signed negative ht, readLayout?,
    hspan]
  simp [ht.ne_nil, readExponent?]

end Signed

theorem read?_ofInt {n : Int} (hshort : isTooLong n = false) :
    read? (ofInt n) = .ok (some (.int n)) := by
  have hvalue := intValue_ofInt n
  rw [ofInt_eq_signed, intValue_signed _ (isDigits_ofNat _)] at hvalue
  rw [ofInt_eq_signed, read?_signed _ (isDigits_ofNat _) (length_ofNat_le hshort), hvalue]

theorem readInt_ofInt {n : Int} (hshort : isTooLong n = false) : readInt (ofInt n) = .ok n := by
  rw [readInt, intValue_ofInt, ofInt_eq_signed, splitSign_signed _ (isDigits_ofNat _),
    if_neg (Nat.not_lt.mpr (length_ofNat_le hshort))]

theorem isNumeral_ofInt (n : Int) : isNumeral (ofInt n) = true := by
  rw [ofInt_eq_signed]
  exact isNumeral_signed _ (isDigits_ofNat _)

theorem write_int {n : Int} (hshort : isTooLong n = false) :
    (Number.int n).write = .ok (ofInt n) := by
  simp [write, normalize, inspect, writeInt, hshort]

theorem write_int_of_isTooLong {n : Int} (hlong : isTooLong n = true) :
    (Number.int n).write = .error .integerTooLong := by
  simp [write, normalize, inspect, writeInt, hlong]

end Number

namespace Value

theorem integerFront?_ofInt (n : Int) :
    integerFront? (Numeral.ofInt n) = some (Numeral.ofInt n) := by
  have hdigits : ∀ c ∈ Numeral.ofNat n.natAbs, c.isDigit = true :=
    fun c hc => Numeral.isDigit_of_mem_ofNat hc
  have htake : (Numeral.ofNat n.natAbs).takeWhile Char.isDigit = Numeral.ofNat n.natAbs :=
    List.takeWhile_eq_self_iff.mpr hdigits
  have hblanks : (Numeral.ofInt n).dropWhile Text.isBlank = Numeral.ofInt n := by
    rw [List.dropWhile_eq_self_iff]
    exact fun h => Numeral.not_isBlank_of_mem_ofInt (List.getElem_mem h)
  rw [integerFront?]
  simp only [hblanks]
  by_cases hneg : n < 0
  · rw [Numeral.ofInt_of_neg hneg]
    simp [htake, Numeral.ofNat_ne_nil]
  · rw [Numeral.ofInt_of_not_neg hneg]
    split
    next rest h => exact absurd h ((Numeral.isDigits_ofNat _).ne_cons (by decide) rest)
    next rest h => exact absurd h ((Numeral.isDigits_ofNat _).ne_cons (by decide) rest)
    next => simp [htake, Numeral.ofNat_ne_nil]

theorem leadingInt_ofInt {n : Int} (hshort : Numeral.isTooLong n = false) :
    leadingInt (Numeral.ofInt n) = .ok n := by
  rw [leadingInt, integerFront?_ofInt]
  exact Number.readInt_ofInt hshort

end Value

end StackScript
