import Mathlib.Data.List.TakeWhile
import StackScript.Text.Utf8

/-! # Reading bytes undoes writing them

A text is written in one way only, and bytes can be read exactly if some text is written so.
Reading goes from one sequence of bytes to the next, and the sequences are the written code
points, so both directions follow from the arithmetic of a single one.
-/

namespace StackScript.Text

/-! ## Single bytes -/

theorem isContinuation_iff {b : UInt8} :
    isContinuation b = true ↔ 0x80 ≤ b.toNat ∧ b.toNat < 0xc0 := by
  simp [isContinuation, UInt8.le_iff_toNat_le, UInt8.lt_iff_toNat_lt]

theorem isSecond_iff {first b : UInt8} :
    isSecond first b = true ↔ (0x80 ≤ b.toNat ∧ b.toNat < 0xc0) ∧
      (first.toNat = 0xe0 → 0xa0 ≤ b.toNat) ∧ (first.toNat = 0xed → b.toNat < 0xa0) ∧
      (first.toNat = 0xf0 → 0x90 ≤ b.toNat) ∧ (first.toNat = 0xf4 → b.toNat < 0x90) := by
  simp only [isSecond, Bool.and_eq_true, isContinuation_iff, Bool.not_eq_true',
    Bool.or_eq_false_iff, Bool.and_eq_false_imp, beq_iff_eq, decide_eq_false_iff_not,
    ← UInt8.toNat_inj,
    UInt8.le_iff_toNat_le, UInt8.lt_iff_toNat_lt, UInt8.reduceToNat, not_lt, not_le, and_assoc]

/-- The first byte of a sequence tells how many bytes follow it. -/
theorem sequenceLength_eq_iff {b : UInt8} {count : Nat} :
    sequenceLength b = count + 1 ↔
      count = 0 ∧ b.toNat < 0x80 ∨ count = 1 ∧ 0xc2 ≤ b.toNat ∧ b.toNat < 0xe0 ∨
        count = 2 ∧ 0xe0 ≤ b.toNat ∧ b.toNat < 0xf0 ∨
        count = 3 ∧ 0xf0 ≤ b.toNat ∧ b.toNat < 0xf5 := by
  simp only [sequenceLength, UInt8.lt_iff_toNat_lt, UInt8.reduceToNat]
  grind

theorem toNat_toUInt8 (n : Nat) : n.toUInt8.toNat = n % 0x100 := by
  rw [Nat.toUInt8_eq, UInt8.toNat_ofNat']

/-! ## Sequences -/

/-- The bytes `more` complete the sequence that `first` starts. -/
def IsSequence (first : UInt8) : List UInt8 → Prop
  | [] => sequenceLength first = 1
  | b :: others =>
      sequenceLength first = others.length + 2 ∧ isSecond first b = true ∧
        ∀ c ∈ others, isContinuation c = true

theorem IsSequence.sequenceLength_eq {first : UInt8} {more : List UInt8}
    (hsequence : IsSequence first more) : sequenceLength first = more.length + 1 := by
  cases more with
  | nil => exact hsequence
  | cons b others => exact hsequence.1

theorem continuationCount_append {first : UInt8} {more : List UInt8}
    (hsequence : IsSequence first more) (rest : List UInt8) :
    continuationCount first more.length (more ++ rest) = more.length := by
  cases more with
  | nil => cases rest <;> rfl
  | cons b others =>
      obtain ⟨-, hsecond, hothers⟩ := hsequence
      have hall : others.takeWhile isContinuation = others := List.takeWhile_eq_self_iff.mpr hothers
      simp only [List.cons_append, continuationCount, List.length_cons, Nat.zero_lt_succ,
        decide_true, hsecond, Bool.and_self, if_true, Nat.add_sub_cancel, List.take_left, hall]
      omega

theorem isSequence_of_found {first : UInt8} {rest : List UInt8} {wanted : Nat}
    (hlength : sequenceLength first = wanted + 1)
    (hfound : continuationCount first wanted rest = wanted) :
    IsSequence first (rest.take wanted) ∧ (rest.take wanted).length = wanted := by
  cases wanted with
  | zero => exact ⟨hlength, rfl⟩
  | succ wanted =>
      cases rest with
      | nil => cases hfound
      | cons b others =>
          rw [continuationCount] at hfound
          split at hfound
          next hsecond =>
            simp only [Nat.zero_lt_succ, decide_true, Bool.true_and] at hsecond
            rw [Nat.add_sub_cancel] at hfound
            -- as many continuations as asked for: none of the bytes taken is anything else
            have hprefix := List.takeWhile_prefix isContinuation (l := others.take wanted)
            have hmost : (others.take wanted).length ≤ wanted := List.length_take_le wanted others
            have hall : (others.take wanted).takeWhile isContinuation = others.take wanted :=
              hprefix.eq_of_length_le (by omega)
            have htaken : (others.take wanted).length = wanted := by
              rw [hall] at hfound
              omega
            rw [List.take_succ_cons, List.length_cons, htaken]
            refine ⟨⟨?_, hsecond, List.takeWhile_eq_self_iff.mp hall⟩, rfl⟩
            rw [hlength, htaken]
          next => cases hfound

/-! ## Code points -/

/-- The number that a sequence spells. -/
def spelled (first : UInt8) : List UInt8 → Nat
  | [] => first.toNat
  | [b] => first.toNat % 0x20 * 0x40 + b.toNat % 0x40
  | [b, c] => (first.toNat % 0x10 * 0x40 + b.toNat % 0x40) * 0x40 + c.toNat % 0x40
  | b :: c :: d :: _ =>
      ((first.toNat % 0x08 * 0x40 + b.toNat % 0x40) * 0x40 + c.toNat % 0x40) * 0x40 +
        d.toNat % 0x40

theorem IsSequence.length_le {first : UInt8} {more : List UInt8}
    (hsequence : IsSequence first more) : more.length ≤ 3 := by
  have hrange := sequenceLength_eq_iff.mp hsequence.sequenceLength_eq
  omega

theorem isValidChar_spelled {first : UInt8} {more : List UInt8}
    (hsequence : IsSequence first more) : (spelled first more).isValidChar := by
  have hrange := sequenceLength_eq_iff.mp hsequence.sequenceLength_eq
  rw [Nat.isValidChar]
  match more, hsequence with
  | [], _ =>
      simp only [List.length_nil] at hrange
      simp only [spelled]
      omega
  | [b], _ =>
      simp only [List.length_cons, List.length_nil] at hrange
      simp only [spelled]
      omega
  | [b, c], ⟨_, hsecond, _⟩ =>
      -- the second byte keeps surrogates out
      simp only [List.length_cons, List.length_nil] at hrange
      rw [isSecond_iff] at hsecond
      simp only [spelled]
      omega
  | b :: c :: d :: others, ⟨_, hsecond, _⟩ =>
      simp only [List.length_cons] at hrange
      rw [isSecond_iff] at hsecond
      simp only [spelled]
      omega

theorem toNat_decodeSequence {first : UInt8} {more : List UInt8}
    (hsequence : IsSequence first more) :
    (decodeSequence first more).toNat = spelled first more := by
  have hlength := hsequence.length_le
  have hdecode : decodeSequence first more = Char.ofNat (spelled first more) := by
    match more with
    | [] | [_] | [_, _] | [_, _, _] => rfl
    | _ :: _ :: _ :: _ :: others =>
        simp only [List.length_cons] at hlength
        omega
  rw [hdecode, Char.ofNat, dif_pos (isValidChar_spelled hsequence)]
  rfl

/-- A sequence is what is written for the code point that it spells. -/
theorem encodeChar_of_toNat {first : UInt8} {more : List UInt8} {c : Char}
    (hsequence : IsSequence first more) (hspelled : c.toNat = spelled first more) :
    encodeChar c = first :: more := by
  have hrange := sequenceLength_eq_iff.mp hsequence.sequenceLength_eq
  simp only [encodeChar]
  match more, hsequence with
  | [], _ =>
      simp only [List.length_nil] at hrange
      simp only [spelled] at hspelled
      rw [if_pos (by omega)]
      simp only [List.cons.injEq, and_true, ← UInt8.toNat_inj, toNat_toUInt8]
      omega
  | [b], ⟨_, hsecond, _⟩ =>
      simp only [List.length_cons, List.length_nil] at hrange
      rw [isSecond_iff] at hsecond
      simp only [spelled] at hspelled
      rw [if_neg (by omega), if_pos (by omega)]
      simp only [List.cons.injEq, and_true, ← UInt8.toNat_inj, toNat_toUInt8]
      omega
  | [b, c], ⟨_, hsecond, hothers⟩ =>
      -- the second byte keeps forms out that are longer than they need to be
      simp only [List.length_cons, List.length_nil] at hrange
      rw [isSecond_iff] at hsecond
      have hc := isContinuation_iff.mp (hothers c List.mem_cons_self)
      simp only [spelled] at hspelled
      rw [if_neg (by omega), if_neg (by omega), if_pos (by omega)]
      simp only [List.cons.injEq, and_true, ← UInt8.toNat_inj, toNat_toUInt8]
      omega
  | [b, c, d], ⟨_, hsecond, hothers⟩ =>
      simp only [List.length_cons, List.length_nil] at hrange
      rw [isSecond_iff] at hsecond
      have hc := isContinuation_iff.mp (hothers c List.mem_cons_self)
      have hd := isContinuation_iff.mp (hothers d (List.mem_cons_of_mem c List.mem_cons_self))
      simp only [spelled] at hspelled
      rw [if_neg (by omega), if_neg (by omega), if_neg (by omega)]
      simp only [List.cons.injEq, and_true, ← UInt8.toNat_inj, toNat_toUInt8]
      omega
  | _ :: _ :: _ :: _ :: others, _ =>
      simp only [List.length_cons] at hrange
      omega

/-- What is written for a code point is a sequence, and spells it. -/
theorem exists_sequence (c : Char) :
    ∃ first more, encodeChar c = first :: more ∧ IsSequence first more ∧
      decodeSequence first more = c := by
  suffices h : ∃ first more, encodeChar c = first :: more ∧ IsSequence first more ∧
      spelled first more = c.toNat by
    obtain ⟨first, more, hencode, hsequence, hspelled⟩ := h
    refine ⟨first, more, hencode, hsequence, Char.toNat_inj.mp ?_⟩
    rw [toNat_decodeSequence hsequence, hspelled]
  have hvalid : c.toNat.isValidChar := c.valid
  rw [Nat.isValidChar] at hvalid
  simp only [encodeChar]
  split_ifs with hone htwo hthree
  · refine ⟨_, _, rfl, ?_, ?_⟩
    · rw [IsSequence, sequenceLength_eq_iff, toNat_toUInt8]
      omega
    · simp only [spelled, toNat_toUInt8]
      omega
  · refine ⟨_, _, rfl, ⟨?_, ?_, List.forall_mem_nil _⟩, ?_⟩
    · rw [sequenceLength_eq_iff, toNat_toUInt8, List.length_nil]
      omega
    · simp only [isSecond_iff, toNat_toUInt8]
      omega
    · simp only [spelled, toNat_toUInt8]
      omega
  · refine ⟨_, _, rfl, ⟨?_, ?_, ?_⟩, ?_⟩
    · rw [sequenceLength_eq_iff, toNat_toUInt8, List.length_singleton]
      omega
    · simp only [isSecond_iff, toNat_toUInt8]
      omega
    · simp only [List.forall_mem_singleton, isContinuation_iff, toNat_toUInt8]
      omega
    · simp only [spelled, toNat_toUInt8]
      omega
  · refine ⟨_, _, rfl, ⟨?_, ?_, ?_⟩, ?_⟩
    · rw [sequenceLength_eq_iff, toNat_toUInt8, List.length_cons, List.length_singleton]
      omega
    · simp only [isSecond_iff, toNat_toUInt8]
      omega
    · rw [List.forall_mem_cons, List.forall_mem_singleton]
      simp only [isContinuation_iff, toNat_toUInt8]
      omega
    · have hhead : (0xf0 + c.toNat / 0x40000) % 0x100 % 0x08 = c.toNat / 0x40000 := by omega
      have htail (n : Nat) : (0x80 + n % 0x40) % 0x100 % 0x40 = n % 0x40 := by omega
      simp only [spelled, toNat_toUInt8, hhead, htail]
      omega

/-! ## Texts -/

/-- Reading a sequence reads its code point, and goes on behind it. -/
theorem decodeFrom_sequence {first : UInt8} {more : List UInt8}
    (hsequence : IsSequence first more) (start : Nat) (rest : List UInt8) :
    decodeFrom start (first :: (more ++ rest)) =
      (decodeFrom (start + 1 + more.length) rest).map (decodeSequence first more :: ·) := by
  have hlength := hsequence.sequenceLength_eq
  rw [decodeFrom]
  simp only [hlength, Nat.add_sub_cancel, Nat.add_one_ne_zero, if_false,
    continuationCount_append hsequence, if_true, List.drop_left, List.take_left]

/-- Bytes that can be read begin with a sequence, and the rest can be read as well. -/
theorem exists_sequence_of_decodeFrom {start : Nat} {first : UInt8} {rest : List UInt8} {t : Text}
    (hread : decodeFrom start (first :: rest) = .ok t) :
    ∃ more later u, rest = more ++ later ∧ IsSequence first more ∧
      decodeFrom (start + 1 + more.length) later = .ok u ∧ t = decodeSequence first more :: u := by
  rw [decodeFrom] at hread
  split at hread
  next => cases hread
  next hlength =>
    split at hread
    next hfound =>
      obtain ⟨wanted, hwanted⟩ := Nat.exists_eq_succ_of_ne_zero hlength
      rw [hwanted, Nat.succ_sub_one] at hfound hread
      obtain ⟨hsequence, htaken⟩ := isSequence_of_found hwanted hfound
      rw [hfound] at hread
      cases hlater : decodeFrom (start + 1 + wanted) (rest.drop wanted) with
      | error reason =>
          rw [hlater] at hread
          cases hread
      | ok u =>
          rw [hlater] at hread
          cases hread
          refine ⟨rest.take wanted, rest.drop wanted, u, ?_, hsequence, ?_, rfl⟩
          · exact (List.take_append_drop wanted rest).symm
          · rw [htaken, hlater]
    next =>
      split at hread <;> cases hread

theorem decodeFrom_encodeUtf8 (start : Nat) (t : Text) :
    decodeFrom start (encodeUtf8 t) = .ok t := by
  induction t generalizing start with
  | nil => rw [encodeUtf8, List.flatMap_nil, decodeFrom]
  | cons c rest ih =>
      obtain ⟨first, more, hencode, hsequence, hdecode⟩ := exists_sequence c
      rw [encodeUtf8, List.flatMap_cons, hencode, List.cons_append, decodeFrom_sequence hsequence,
        ← encodeUtf8, ih, hdecode]
      rfl

theorem encodeUtf8_of_decodeFrom {start : Nat} {bytes : List UInt8} {t : Text}
    (hread : decodeFrom start bytes = .ok t) : bytes = encodeUtf8 t := by
  -- each sequence is shorter than what it begins
  induction hcount : bytes.length using Nat.strongRecOn generalizing start bytes t with
  | ind count ih =>
    cases bytes with
    | nil =>
        rw [decodeFrom] at hread
        cases hread
        rfl
    | cons first rest =>
        obtain ⟨more, later, u, rfl, hsequence, hlater, rfl⟩ := exists_sequence_of_decodeFrom hread
        rw [List.length_cons, List.length_append] at hcount
        have hrest := ih later.length (by omega) hlater rfl
        rw [encodeUtf8, List.flatMap_cons, ← encodeUtf8, ← hrest,
          encodeChar_of_toNat hsequence (toNat_decodeSequence hsequence), List.cons_append]

/-- Bytes are read as a text exactly if the text is written so. -/
theorem decodeUtf8_eq_ok_iff {bytes : List UInt8} {t : Text} :
    decodeUtf8 bytes = .ok t ↔ bytes = encodeUtf8 t := by
  constructor
  · exact encodeUtf8_of_decodeFrom
  · rintro rfl
    exact decodeFrom_encodeUtf8 0 t

end StackScript.Text
