import Mathlib.Data.List.TakeWhile
import StackScript.Proofs.Numeral.Integer
import StackScript.Proofs.Value.Kinds

/-! # Numerals are read

A text in the form of a numeral is read as a number: what has a mantissa, however it is written, is
a double at least, whatever its exponent. Only an integer with too many digits is refused.
-/

namespace StackScript

namespace Numeral

/-! ## Code points -/

/-- What numerals are made of besides digits. -/
def spellingMarks : Text := "+-.eE".toList

/-- The text consists of digits and of what may stand among them in a numeral. -/
def IsMarked (t : Text) : Prop := ∀ c ∈ t, c.isDigit = true ∨ c ∈ spellingMarks

variable {t u : Text}

theorem IsMarked.append (ht : IsMarked t) (hu : IsMarked u) : IsMarked (t ++ u) :=
  List.forall_mem_append.mpr ⟨ht, hu⟩

theorem IsMarked.cons {c : Char} (hc : c ∈ spellingMarks) (ht : IsMarked t) : IsMarked (c :: t) :=
  List.forall_mem_cons.mpr ⟨.inr hc, ht⟩

theorem isMarked_of_digits (ht : ∀ c ∈ t, c.isDigit = true) : IsMarked t :=
  fun c hc => .inl (ht c hc)

theorem isMarked_of_splitSign (ht : IsMarked (splitSign t).2) : IsMarked t := by
  unfold splitSign at ht
  split at ht
  · exact ht.cons (by decide)
  · exact ht.cons (by decide)
  · exact ht

theorem isMarked_of_readExponent? (ht : (readExponent? t).isSome = true) : IsMarked t := by
  cases t with
  | nil => exact fun c hc => absurd hc List.not_mem_nil
  | cons c rest =>
      simp only [readExponent?] at ht
      split at ht
      next hexponent =>
        simp only [Bool.and_eq_true, Bool.or_eq_true, beq_iff_eq, List.all_eq_true] at hexponent
        obtain ⟨⟨hmark, -⟩, hdigits⟩ := hexponent
        refine (isMarked_of_splitSign (isMarked_of_digits hdigits)).cons ?_
        rcases hmark with rfl | rfl <;> decide
      next => cases ht

theorem spanDigits_append_self (t : Text) : (spanDigits t).1 ++ (spanDigits t).2 = t :=
  List.takeWhile_append_dropWhile

theorem isMarked_spanDigits (t : Text) : IsMarked (spanDigits t).1 :=
  isMarked_of_digits fun _ hc => List.mem_takeWhile_imp hc

theorem isMarked_of_readLayout? (ht : (readLayout? t).isSome = true) : IsMarked t := by
  have hspan {u : Text} (hu : IsMarked (spanDigits u).2) : IsMarked u :=
    spanDigits_append_self u ▸ (isMarked_spanDigits u).append hu
  have hexponent {rest : Text} {f : Int → Layout} {b : Bool}
      (h : (if b = true then none else (readExponent? rest).map f).isSome = true) :
      IsMarked rest := by
    split at h
    · cases h
    · rw [Option.isSome_map] at h
      exact isMarked_of_readExponent? h
  refine hspan ?_
  simp only [readLayout?] at ht
  split at ht
  next rest hrest =>
    rw [hrest]
    exact (hspan (hexponent ht)).cons (by decide)
  next => exact hexponent ht

/-! ## Freedoms of spelling -/

/-- What holds of the digits and of the marks holds throughout the text. -/
theorem IsMarked.forall {p : Char → Bool} (ht : IsMarked t)
    (hdigit : ∀ n < 10, p (Char.ofNat (48 + n)) = true) (hmark : spellingMarks.all p = true) :
    ∀ c ∈ t, p c = true := fun c hc =>
  (ht c hc).elim (Text.forall_isDigit (p := fun c => p c = true) hdigit)
    (List.all_eq_true.mp hmark c)

theorem trimBy_eq_self {drop : Char → Bool} (ht : ∀ c ∈ t, drop c = false) :
    Text.trimBy drop t = t := by
  have hkeep {u : Text} (hu : ∀ c ∈ u, drop c = false) : u.dropWhile drop = u := by
    cases u with
    | nil => rfl
    | cons c rest =>
        rw [List.dropWhile_cons_of_neg]
        rw [hu c List.mem_cons_self]
        exact Bool.false_ne_true
  rw [Text.trimBy, hkeep ht, hkeep fun c hc => ht c (List.mem_reverse.mp hc), List.reverse_reverse]

theorem asciiDigits_eq_self (ht : ∀ c ∈ t, asciiDigits [c] = [c]) : asciiDigits t = t := by
  induction t with
  | nil => rfl
  | cons c rest ih =>
      obtain ⟨hc, hrest⟩ := List.forall_mem_cons.mp ht
      have hsplit : asciiDigits (c :: rest) = asciiDigits [c] ++ asciiDigits rest := rfl
      rw [hsplit, hc, ih hrest, List.singleton_append]

theorem dropUnderscores_eq_some (ht : '_' ∉ t) (afterDigit : Bool) :
    dropUnderscores afterDigit t = some t := by
  induction t generalizing afterDigit with
  | nil => rfl
  | cons c rest ih =>
      rw [List.mem_cons, not_or] at ht
      obtain ⟨hc, hrest⟩ := ht
      rw [dropUnderscores]
      · rw [if_neg (by simpa using Ne.symm hc), ih hrest]
        rfl
      · rintro d more rfl
        exact absurd rfl hc

/-- What is made of digits and marks has no freedom of spelling. -/
theorem IsMarked.plainSpelling?_eq (ht : IsMarked t) : plainSpelling? t = some t := by
  have hblank : ∀ c ∈ t, isNumeralBlank c = false := by
    simpa using ht.forall (p := fun c => !isNumeralBlank c) (by decide) (by decide)
  have hunderscore : '_' ∉ t := fun hmem =>
    absurd (ht.forall (p := fun c => c != '_') (by decide) (by decide) '_' hmem) (by decide)
  have hascii : ∀ c ∈ t, asciiDigits [c] = [c] := by
    simpa using ht.forall (p := fun c => asciiDigits [c] == [c]) (by decide) (by decide)
  rw [plainSpelling?, trimBy_eq_self hblank, asciiDigits_eq_self hascii]
  exact dropUnderscores_eq_some hunderscore false

/-- A numeral is read as a double, whatever its digits and its exponent are. -/
theorem exists_readFloat? (ht : (readLayout? (splitSign t).2).isSome = true) :
    ∃ x, readFloat? t = some x := by
  have hmarked := isMarked_of_splitSign (isMarked_of_readLayout? ht)
  obtain ⟨layout, hlayout⟩ := Option.isSome_iff_exists.mp ht
  simp only [readFloat?, hmarked.plainSpelling?_eq, hlayout, Option.map_some]
  split
  · exact ⟨_, rfl⟩
  split
  · exact ⟨_, rfl⟩
  · exact ⟨_, rfl⟩

end Numeral

namespace Number

open Numeral

variable {t : Text}

theorem exists_signed (ht : isIntegerNumeral t = true) (hlast : t.getLast? ≠ some '\n') :
    ∃ negative digits, IsDigits digits ∧ t = signed negative digits := by
  rw [isIntegerNumeral, Text.dropFinalLineFeed_of_getLast?_ne hlast] at ht
  have hdigits {digits : Text} (h : (!digits.isEmpty && digits.all Char.isDigit) = true) :
      IsDigits digits := by
    rw [Bool.and_eq_true, Bool.not_eq_true', List.isEmpty_eq_false_iff, List.all_eq_true] at h
    exact ⟨h.1, h.2⟩
  split at ht
  next rest => exact ⟨true, rest, hdigits ht, rfl⟩
  next => exact ⟨false, t, hdigits ht, rfl⟩

theorem countP_signed {digits : Text} (negative : Bool) (hdigits : IsDigits digits) :
    (signed negative digits).countP Char.isDigit = digits.length := by
  have hcount : digits.countP Char.isDigit = digits.length :=
    List.countP_eq_length.mpr hdigits.isDigit
  cases negative with
  | true => exact (List.countP_cons_of_neg (by decide)).trans hcount
  | false => exact hcount

/-- A text in the form of a numeral is read as a number, unless it has too many digits. -/
theorem exists_read? (hform : isNumeral t = true) (hlast : t.getLast? ≠ some '\n')
    (hdigits : t.countP Char.isDigit ≤ digitLimit) : ∃ n, read? t = .ok (some n) := by
  by_cases hinteger : isIntegerNumeral t = true
  · obtain ⟨negative, digits, hsigned, rfl⟩ := exists_signed hinteger hlast
    rw [countP_signed negative hsigned] at hdigits
    exact ⟨_, read?_signed negative hsigned hdigits⟩
  · rw [isNumeral, Text.dropFinalLineFeed_of_getLast?_ne hlast] at hform
    obtain ⟨x, hx⟩ := exists_readFloat? hform
    rw [read?, if_neg hinteger, hx]
    exact ⟨_, rfl⟩

end Number

end StackScript
