import Mathlib.Data.List.DropRight
import StackScript.Text.Basic

/-! # Trimming

Trimming drops blanks from the ends of a text and stops at the first code point from either
side that is not blank.
-/

namespace StackScript.Text

theorem trim_eq (t : Text) : trim t = (t.dropWhile isBlank).rdropWhile isBlank := rfl

@[simp]
theorem trim_cons_blank {c : Char} (hblank : isBlank c) (t : Text) : trim (c :: t) = trim t := by
  rw [trim_eq, List.dropWhile_cons_of_pos hblank, trim_eq]

@[simp]
theorem trim_concat_blank {c : Char} (hblank : isBlank c) (t : Text) :
    trim (t ++ [c]) = trim t := by
  rw [trim_eq, trim_eq, List.dropWhile_append]
  split
  next hnil =>
    -- nothing but blanks
    rw [List.dropWhile_cons_of_pos hblank, List.isEmpty_iff.mp hnil]
    rfl
  next => exact List.rdropWhile_concat_pos _ _ _ hblank

theorem trim_cons_of_not_blank {c : Char} (hblank : ¬ isBlank c) (t : Text) :
    trim (c :: t) = (c :: t).rdropWhile isBlank := by
  rw [trim_eq, List.dropWhile_cons_of_neg hblank]

theorem rdropWhile_append_cons {drop : Char → Bool} {c : Char} (hc : ¬ drop c) (front t : Text) :
    (front ++ c :: t).rdropWhile drop = front ++ c :: t.rdropWhile drop := by
  induction t using List.reverseRecOn with
  | nil => rw [List.rdropWhile_concat_neg _ _ _ hc, List.rdropWhile_nil]
  | append_singleton t last ih =>
      have hsplit : front ++ c :: (t ++ [last]) = (front ++ c :: t) ++ [last] := by simp
      rw [hsplit, List.rdropWhile_concat, List.rdropWhile_concat, ih]
      split
      · rfl
      · simp

/-- A code point that is not blank stays, and so does all that is not at the ends. -/
theorem trim_append_cons {c : Char} (hc : ¬ isBlank c) (front t : Text) :
    trim (front ++ c :: t) = front.dropWhile isBlank ++ c :: t.rdropWhile isBlank := by
  have hfront : (front ++ c :: t).dropWhile isBlank = front.dropWhile isBlank ++ c :: t := by
    rw [List.dropWhile_append]
    split
    next hnil => rw [List.dropWhile_cons_of_neg hc, List.isEmpty_iff.mp hnil, List.nil_append]
    next => rfl
  rw [trim_eq, hfront, rdropWhile_append_cons hc]

theorem trim_dropWhile_isBlank (t : Text) : trim (t.dropWhile isBlank) = trim t := by
  rw [trim_eq, trim_eq, List.dropWhile_idempotent]

theorem trim_eq_self {t : Text} (hfirst : ∀ c ∈ t.head?, ¬ isBlank c)
    (hlast : ∀ c ∈ t.getLast?, ¬ isBlank c) : trim t = t := by
  cases t with
  | nil => rfl
  | cons first rest =>
      rw [trim_cons_of_not_blank (hfirst first rfl), List.rdropWhile_eq_self_iff]
      intro hne
      exact hlast _ (List.getLast_mem_getLast? hne)

/-- Blanks around a text make no difference to what is left of it. -/
theorem trim_padded {before after : Text} (hbefore : ∀ c ∈ before, isBlank c)
    (hafter : ∀ c ∈ after, isBlank c) (t : Text) : trim (before ++ t ++ after) = trim t := by
  have hfront (u : Text) : trim (before ++ u) = trim u := by
    induction before with
    | nil => rfl
    | cons c rest ih =>
        obtain ⟨hc, hrest⟩ := List.forall_mem_cons.mp hbefore
        rw [List.cons_append, trim_cons_blank hc, ih hrest]
  rw [List.append_assoc, hfront]
  induction after using List.reverseRecOn with
  | nil => rw [List.append_nil]
  | append_singleton rest c ih =>
      obtain ⟨hrest, hc⟩ := List.forall_mem_append.mp hafter
      rw [← List.append_assoc, trim_concat_blank (hc c List.mem_cons_self), ih hrest]

theorem trim_blanks {blanks : Text} (hblanks : ∀ c ∈ blanks, isBlank c) : trim blanks = [] := by
  have h := trim_padded hblanks (List.forall_mem_nil _) []
  rwa [List.append_nil, List.append_nil] at h

/-- Nothing but blanks is trimmed to nothing. -/
theorem trim_ne_nil {t : Text} {c : Char} (hmem : c ∈ t) (hc : ¬ isBlank c) : trim t ≠ [] := by
  obtain ⟨front, back, rfl⟩ := List.append_of_mem hmem
  rw [trim_append_cons hc]
  exact List.append_ne_nil_of_right_ne_nil _ (List.cons_ne_nil _ _)

/-! ## Parts of a text -/

theorem trim_sublist (t : Text) : (trim t).Sublist t :=
  (List.rdropWhile_prefix isBlank (t.dropWhile isBlank)).sublist.trans (List.dropWhile_sublist _)

/-- No blank is left at the end. -/
theorem not_isBlank_of_getLast?_trim {t : Text} {c : Char} (hc : (trim t).getLast? = some c) :
    ¬ isBlank c := by
  have hne : trim t ≠ [] := by
    intro hnil
    rw [hnil] at hc
    cases hc
  rw [List.getLast?_eq_some_getLast hne] at hc
  exact Option.some.inj hc ▸ List.rdropWhile_last_not isBlank (t.dropWhile isBlank) hne

theorem inner_sublist (t : Text) : (inner t).Sublist t :=
  (List.dropLast_sublist _).trans (List.tail_sublist t)

theorem length_inner (t : Text) : (inner t).length = t.length - 2 := by
  rw [inner, List.length_dropLast, List.length_tail]
  omega

/-! ## Trimmed texts -/

/-- The text is not empty, and no blank stands at its ends. -/
structure IsTrimmed (t : Text) : Prop where
  ne_nil : t ≠ []
  first : ∀ c ∈ t.head?, ¬ isBlank c
  last : ∀ c ∈ t.getLast?, ¬ isBlank c

namespace IsTrimmed

variable {t : Text}

theorem of_forall (hne : t ≠ []) (ht : ∀ c ∈ t, ¬ isBlank c) : IsTrimmed t where
  ne_nil := hne
  first c hc := ht c (List.mem_of_mem_head? hc)
  last c hc := ht c (List.mem_of_getLast? hc)

instance (t : Text) : Decidable (IsTrimmed t) :=
  have hall (o : Option Char) : o.all (!isBlank ·) = true ↔ ∀ c ∈ o, ¬ isBlank c := by
    simp [Option.all_eq_true]
  decidable_of_iff (t ≠ [] ∧ t.head?.all (!isBlank ·) = true ∧ t.getLast?.all (!isBlank ·) = true)
    ⟨fun h => ⟨h.1, (hall _).mp h.2.1, (hall _).mp h.2.2⟩,
      fun h => ⟨h.ne_nil, (hall _).mpr h.first, (hall _).mpr h.last⟩⟩

theorem trim_eq_self (ht : IsTrimmed t) : trim t = t := Text.trim_eq_self ht.first ht.last

theorem exists_not_isBlank (ht : IsTrimmed t) : ∃ c ∈ t, ¬ isBlank c := by
  obtain ⟨c, rest, rfl⟩ := List.exists_cons_of_ne_nil ht.ne_nil
  exact ⟨c, List.mem_cons_self, ht.first c rfl⟩

end IsTrimmed

end StackScript.Text
