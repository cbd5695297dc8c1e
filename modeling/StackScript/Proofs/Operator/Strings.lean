import StackScript.Operator.Apply
import StackScript.Proofs.Operator.ElementSum
import StackScript.Proofs.Text.Unbroken
import StackScript.Proofs.Value.StringText
import StackScript.Session

/-! # Joined and repeated strings

Strings that are joined or repeated at the top of the stack are put into quotes again, so that the
result is a string with the joined or repeated content. Strings that are elements of arrays lose
their quotes when they are joined, and what comes of them is no string any more.
-/

namespace StackScript

namespace Operation

variable {depth : Nat} {l r left right : Text}

/-! ## Operations on strings -/

theorem stringContent?_eq {content t : Text} (h : Text.IsStringOf content t) :
    stringContent? (.text t) = some content := by
  have hform : Text.isStringLiteral t = true :=
    (Text.hasForm_iff (k := .string) (by decide)).mpr h.kind_eq
  rw [stringContent?, if_pos hform, h.content_eq]

theorem add_strings (hleft : Text.IsStringOf l left) (hright : Text.IsStringOf r right)
    (depth : Nat) : add depth (.text left) (.text right) = .ok (.text (Text.quote (l ++ r))) := by
  have harray : ((Value.text right).isA .array && (Value.text left).isA .array) = false := by
    rw [hright.isA_eq_false (by decide), Bool.false_and]
  rw [add]
  simp only [harray, Bool.false_eq_true, if_false, stringContent?_eq hleft,
    stringContent?_eq hright]
  rfl

/-- The repeated text is not too long, nor the count too large. -/
structure IsRepeatable (t : Text) (count : Int) : Prop where
  ge : -(lengthLimit : Int) - 1 ≤ count
  le : count ≤ lengthLimit
  length_le : t.length * count.toNat ≤ Number.memoryBits

theorem repeatText_of_isRepeatable {t : Text} {count : Int} (h : IsRepeatable t count) :
    repeatText t count = .ok (List.replicate count.toNat t).flatten := by
  obtain ⟨hge, hle, hlength⟩ := h
  have hcount : ¬ ((lengthLimit : Int) < count ∨ count < -(lengthLimit : Int) - 1) := by omega
  have hroom : ¬ (1 < count ∧ lengthLimit / count.toNat < t.length) := by
    rintro ⟨hcount, hlong⟩
    have hmemory : Number.memoryBits < lengthLimit := by decide +kernel
    have hmore := (Nat.div_lt_iff_lt_mul (by omega)).mp hlong
    omega
  simp only [repeatText, Bool.or_eq_true, Bool.and_eq_true, decide_eq_true_eq, hcount, hroom,
    Nat.not_lt.mpr hlength, if_false]
  split
  next hempty => rw [List.isEmpty_iff.mp hempty, List.flatten_replicate_nil]
  next => rfl

/-- A string is repeated as often as the number above it says, without its fraction. -/
theorem multiply_string {v : Value} {count : Int} (hleft : Text.IsStringOf l left)
    (hv : v.isA .number = true)
    (hcount : (v.asNumber depth (.arithmetic .multiply) >>= Number.toInt) = .ok count)
    (hrepeat : IsRepeatable l count) :
    multiply depth (.text left) v =
      .ok (.text (Text.quote (List.replicate count.toNat l).flatten)) := by
  have hnot {k : Kind} (hk : k ≠ .number) : v.isA k = false := by
    rw [Value.isA_eq, beq_iff_eq] at hv
    rw [Value.isA_eq, hv, beq_eq_false_iff_ne]
    exact hk.symm
  rw [multiply]
  simp only [hnot (k := .array) (by decide), hnot (k := .matrix) (by decide), Bool.and_false,
    Bool.false_and, Bool.false_eq_true, if_false, stringContent?_eq hleft, hv]
  rw [← bind_assoc, hcount]
  change (repeatText l count >>= fun t => pure (Value.text (Text.quote t))) = _
  rw [repeatText_of_isRepeatable hrepeat]
  rfl

/-- Where two arrays have texts at the same position, their sum has there the text that is joined
of the contents. -/
theorem addElements_texts {v w sum : Value} (hok : addElements depth v w = .ok sum)
    {position : List Nat} {t u : Text} (ht : v.elementAt? position = some (.text t))
    (hu : w.elementAt? position = some (.text u)) :
    sum.elementAt? position = some (.text (Text.content t ++ Text.content u)) := by
  induction position generalizing depth v w sum with
  | nil =>
      cases ht
      cases hu
      simp only [addElements] at hok
      cases hok
      rfl
  | cons i position ih =>
      obtain ⟨xs, x, rfl, hx, ht⟩ := Value.elementAt?_cons_eq_some.mp ht
      obtain ⟨ys, y, rfl, hy, hu⟩ := Value.elementAt?_cons_eq_some.mp hu
      obtain ⟨d, zs, rfl, rfl, hsums⟩ := addElements_list_eq_ok hok
      obtain ⟨z, hz, hsum⟩ := getElem?_of_forall₂_zip hsums hx hy
      rw [Value.elementAt?_list_cons hz]
      exact ih hsum ht hu

theorem isA_of_asList {op : Operator} {k : Kind} {v : Value} {items : List Value}
    (hv : v.asList depth op k = .ok items) : v.isA k = true := by
  by_contra hk
  rw [Value.asList, if_neg hk] at hv
  change (do .error (.expected op k (← v.textOf depth)) : Except Fault (List Value)) = _ at hv
  cases htext : v.textOf depth <;> rw [htext] at hv <;> cases hv

/-- Arrays are added by their elements. -/
theorem add_arrays {b a : Value} {items others : List Value}
    (hb : b.asList depth (.arithmetic .add) .array = .ok items)
    (ha : a.asList depth (.arithmetic .add) .array = .ok others) :
    add depth b a = addElements depth (.list items) (.list others) := by
  rw [add, isA_of_asList hb, isA_of_asList ha]
  simp only [Bool.and_self, if_true, hb, ha]
  rfl

end Operation

namespace Operator

open Operation

variable {l r left right : Text}

theorem apply_add_eq_ok {depth : Nat} {b a sum : Value} {s : Stack} :
    apply depth (.arithmetic .add) (a :: b :: s) = ⟨sum :: s, none⟩ ↔ add depth b a = .ok sum := by
  change binary (.arithmetic .add) (add depth) (a :: b :: s) = _ ↔ _
  rw [binary]
  cases add depth b a <;> simp

/-- Strings that are joined or repeated at the top of the stack give strings again. Where two arrays
are added that have strings at the same position, their sum has the joined content there, which is
no string. -/
theorem string_results (hleft : Text.IsStringOf l left) (hright : Text.IsStringOf r right)
    (depth : Nat) (s : Stack) :
    (∃ t, Text.IsStringOf (l ++ r) t ∧
      apply depth (.arithmetic .add) (.text right :: .text left :: s) = ⟨.text t :: s, none⟩) ∧
    (∀ v count, v.isA .number = true →
      (v.asNumber depth (.arithmetic .multiply) >>= Number.toInt) = .ok count →
      IsRepeatable l count →
      ∃ t, Text.IsStringOf (List.replicate count.toNat l).flatten t ∧
        apply depth (.arithmetic .multiply) (v :: .text left :: s) = ⟨.text t :: s, none⟩) ∧
    ∀ b a items others sum position, b.asList depth (.arithmetic .add) .array = .ok items →
      a.asList depth (.arithmetic .add) .array = .ok others →
      apply depth (.arithmetic .add) (a :: b :: s) = ⟨sum :: s, none⟩ →
      (Value.list items).elementAt? position = some (.text left) →
      (Value.list others).elementAt? position = some (.text right) →
      sum.elementAt? position = some (.text (l ++ r)) ∧ Text.kind (l ++ r) ≠ .string := by
  have hjoined : '"' ∉ l ++ r := by
    rw [List.mem_append, not_or]
    exact ⟨hleft.quote_not_mem, hright.quote_not_mem⟩
  refine ⟨⟨_, Text.isStringOf_iff.mpr ⟨rfl, hjoined⟩, ?_⟩, ?_, ?_⟩
  · exact apply_add_eq_ok.mpr (add_strings hleft hright depth)
  · intro v count hv hcount hrepeat
    have hrepeated : '"' ∉ (List.replicate count.toNat l).flatten :=
      fun hmem => hleft.quote_not_mem (Text.flatten_replicate_subset _ l hmem)
    refine ⟨_, Text.isStringOf_iff.mpr ⟨rfl, hrepeated⟩, ?_⟩
    change binary (.arithmetic .multiply) (multiply depth) (v :: .text left :: s) = _
    rw [binary, multiply_string hleft hv hcount hrepeat]
  · intro b a items others sum position hb ha hsum hl hr
    rw [apply_add_eq_ok, add_arrays hb ha] at hsum
    have helement := addElements_texts hsum hl hr
    rw [hleft.content_eq, hright.content_eq] at helement
    exact ⟨helement, Text.kind_ne_string hjoined⟩

/-- The joined content may look like a numeral; within arrays it then is one. -/
theorem string_results_numeral :
    let one := "\"1\"".toList
    let two := "\"2\"".toList
    Text.IsStringOf ['1'] one ∧ Text.IsStringOf ['2'] two ∧
    (∃ t, Text.IsStringOf "12".toList t ∧
      apply 9 (.arithmetic .add) [.text two, .text one] = ⟨[.text t], none⟩) ∧
    (∃ t, Text.IsStringOf "111".toList t ∧
      apply 9 (.arithmetic .multiply) [.text "3.5".toList, .text one] = ⟨[.text t], none⟩) ∧
    ∀ sum, apply 9 (.arithmetic .add) [.list [.text two], .text "[\"1\"]".toList] =
        ⟨[sum], none⟩ →
      sum.elementAt? [0] = some (.text "12".toList) := by
  intro one two
  have hone : Text.IsStringOf ['1'] one := Text.isStringOf_iff.mpr ⟨rfl, by decide⟩
  have htwo : Text.IsStringOf ['2'] two := Text.isStringOf_iff.mpr ⟨rfl, by decide⟩
  obtain ⟨hjoin, hrepeat, harray⟩ := string_results hone htwo 9 []
  refine ⟨hone, htwo, hjoin, ?_, fun sum hsum => ?_⟩
  · exact hrepeat (.text "3.5".toList) 3 (by decide) (by decide +kernel)
      ⟨by decide +kernel, by decide +kernel, by decide +kernel⟩
  · exact (harray _ _ [.text one] [.text two] sum [0] rfl rfl hsum rfl rfl).1

/-- What comes of two strings that are elements of arrays may be classified as a number. -/
theorem evaluate_strings_to_number :
    Text.IsStringOf ['1'] "\"1\"".toList ∧ Text.IsStringOf ['2'] "\"2\"".toList ∧
    (evaluate "[\"1\"] [\"2\"] +".toList).map
      (List.map fun v => (v.elementAt? [0]).map Value.kind) = .ok [some .number] := by
  refine ⟨Text.isStringOf_iff.mpr ⟨rfl, by decide⟩, Text.isStringOf_iff.mpr ⟨rfl, by decide⟩, ?_⟩
  decide +kernel

end Operator

end StackScript
