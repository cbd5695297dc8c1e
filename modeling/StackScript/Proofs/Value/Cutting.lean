import Mathlib.Tactic.Common
import StackScript.Value.ArrayText

/-! # Cutting at commas

A text whose brackets are balanced is carried over in one piece when an array text is cut at its
commas, and inside of brackets commas are too. So texts that were joined with commas are what the
joined text is cut into.
-/

namespace StackScript.ArrayText

/-- Puts a text in front of the first part. -/
def prepend (t : Text) : List Text → List Text
  | [] => [t]
  | part :: more => (t ++ part) :: more

theorem prepend_append (t u : Text) (parts : List Text) :
    prepend (t ++ u) parts = prepend t (prepend u parts) := by
  cases parts with
  | nil => rfl
  | cons part more => simp [prepend]

theorem splitFrom_cons {c : Char} {k : Int} (hcut : c ≠ ',' ∨ k ≠ 0) (rest : Text) :
    splitFrom k (c :: rest) = prepend [c] (splitFrom (k + bracketStep c) rest) := by
  have hkeep : ¬ (c == ',' && k == 0) = true := by
    rw [Bool.and_eq_true, beq_iff_eq, beq_iff_eq, not_and_or]
    exact hcut
  rw [splitFrom, if_neg hkeep]
  cases splitFrom (k + bracketStep c) rest <;> rfl

theorem splitFrom_comma (rest : Text) : splitFrom 0 (',' :: rest) = [] :: splitFrom 0 rest := rfl

theorem splitFrom_ne_nil (k : Int) (t : Text) : splitFrom k t ≠ [] := by
  cases t with
  | nil => exact List.cons_ne_nil _ _
  | cons c rest =>
      rw [splitFrom]
      split
      · exact List.cons_ne_nil _ _
      · split <;> exact List.cons_ne_nil _ _

/-- The parts take their code points from the text, in order. -/
theorem sublist_of_mem_splitFrom {k : Int} {t part : Text} (hpart : part ∈ splitFrom k t) :
    part.Sublist t := by
  fun_induction splitFrom k t generalizing part with
  | case1 =>
      obtain rfl := List.mem_singleton.mp hpart
      exact List.Sublist.refl _
  | case2 k c rest _ ih =>
      rcases List.mem_cons.mp hpart with rfl | hpart
      · exact List.nil_sublist _
      · exact (ih hpart).cons c
  | case3 k c rest _ hrest ih =>
      obtain rfl := List.mem_singleton.mp hpart
      exact (List.nil_sublist rest).cons_cons c
  | case4 k c rest _ first more hrest ih =>
      rw [hrest] at ih
      rcases List.mem_cons.mp hpart with rfl | hpart
      · exact (ih List.mem_cons_self).cons_cons c
      · exact (ih (List.mem_cons_of_mem first hpart)).cons c

/-! ## Texts that are not cut -/

/-- With `k` brackets open, the text is not cut, and leaves `k` brackets open. -/
def IsCarried (k : Int) (t : Text) : Prop :=
  ∀ rest, splitFrom k (t ++ rest) = prepend t (splitFrom k rest)

/-- Neither a bracket nor a comma stands in the text. -/
def IsUnbracketed (t : Text) : Prop := ∀ c ∈ t, c ≠ '[' ∧ c ≠ ']' ∧ c ≠ ','

instance (t : Text) : Decidable (IsUnbracketed t) :=
  List.decidableBAll (fun c => c ≠ '[' ∧ c ≠ ']' ∧ c ≠ ',') t

theorem isUnbracketed_of_forall {p : Char → Bool} {t : Text} (ht : ∀ c ∈ t, p c = true)
    (hp : p '[' = false ∧ p ']' = false ∧ p ',' = false) : IsUnbracketed t := by
  intro c hc
  have hne {d : Char} (hd : p d = false) : c ≠ d := by
    rintro rfl
    rw [ht c hc] at hd
    cases hd
  exact ⟨hne hp.1, hne hp.2.1, hne hp.2.2⟩

theorem bracketStep_eq_zero {c : Char} (hopen : c ≠ '[') (hclose : c ≠ ']') :
    bracketStep c = 0 := by
  unfold bracketStep
  split
  · exact absurd rfl hopen
  · exact absurd rfl hclose
  · rfl

namespace IsCarried

variable {k : Int} {t u : Text}

theorem nil (k : Int) : IsCarried k [] := by
  intro rest
  rw [List.nil_append]
  cases hparts : splitFrom k rest with
  | nil => exact absurd hparts (splitFrom_ne_nil k rest)
  | cons part more => rfl

theorem append (ht : IsCarried k t) (hu : IsCarried k u) : IsCarried k (t ++ u) := by
  intro rest
  rw [List.append_assoc, ht, hu, prepend_append]

theorem singleton {c : Char} (hstep : bracketStep c = 0) (hcut : c ≠ ',' ∨ k ≠ 0) :
    IsCarried k [c] := by
  intro rest
  rw [List.singleton_append, splitFrom_cons hcut, hstep, Int.add_zero]

/-- A text without brackets and commas is carried over anywhere. -/
theorem of_isUnbracketed (ht : IsUnbracketed t) (k : Int) : IsCarried k t := by
  induction t with
  | nil => exact nil k
  | cons c rest ih =>
      obtain ⟨hopen, hclose, hcomma⟩ := ht c List.mem_cons_self
      have hrest := ih fun x hx => ht x (List.mem_cons_of_mem c hx)
      exact (singleton (bracketStep_eq_zero hopen hclose) (.inl hcomma)).append hrest

/-- Brackets may be put around a text that is carried over within them. -/
theorem brackets (ht : IsCarried (k + 1) t) : IsCarried k ('[' :: t ++ [']']) := by
  intro rest
  have hopen : splitFrom k ('[' :: (t ++ ']' :: rest)) =
      prepend ['['] (splitFrom (k + 1) (t ++ ']' :: rest)) :=
    splitFrom_cons (Or.inl (by decide)) _
  have hclose : splitFrom (k + 1) (']' :: rest) = prepend [']'] (splitFrom k rest) := by
    rw [splitFrom_cons (Or.inl (by decide)), bracketStep, Int.add_neg_cancel_right]
  have hsplit : '[' :: t ++ [']'] ++ rest = '[' :: (t ++ ']' :: rest) := by simp
  rw [hsplit, hopen, ht, hclose, ← prepend_append, ← prepend_append]
  rfl

/-- Within brackets texts are carried over together with the commas between them. -/
theorem join {texts : List Text} (hk : 0 ≤ k) (htexts : ∀ t ∈ texts, IsCarried (k + 1) t) :
    IsCarried (k + 1) (Text.join [','] texts) := by
  induction texts with
  | nil => exact nil _
  | cons t rest ih =>
      have hhead := htexts t List.mem_cons_self
      have hrest := ih fun u hu => htexts u (List.mem_cons_of_mem t hu)
      cases rest with
      | nil => exact hhead
      | cons next rest =>
          have hcomma : IsCarried (k + 1) [','] := singleton rfl (Or.inr (by omega))
          rw [Text.join]
          · exact (hhead.append hcomma).append hrest
          · exact List.cons_ne_nil _ _

end IsCarried

/-- A text that is carried over ends where a comma follows it. -/
theorem IsCarried.splitTopLevel_comma {t : Text} (ht : IsCarried 0 t) (rest : Text) :
    splitTopLevel (t ++ ',' :: rest) = t :: splitTopLevel rest := by
  rw [splitTopLevel, ht, splitFrom_comma, prepend, List.append_nil, splitTopLevel]

theorem join_cons_cons (t next : Text) (rest : List Text) :
    Text.join [','] (t :: next :: rest) = t ++ ',' :: Text.join [','] (next :: rest) := by
  simp [Text.join]

/-- Joined texts that are carried over are cut where they were joined. -/
theorem splitTopLevel_join {texts : List Text} (hne : texts ≠ [])
    (htexts : ∀ t ∈ texts, IsCarried 0 t) : splitTopLevel (Text.join [','] texts) = texts := by
  induction texts with
  | nil => exact absurd rfl hne
  | cons t rest ih =>
      have hhead := htexts t List.mem_cons_self
      cases rest with
      | nil =>
          have hlast := hhead []
          simpa [Text.join, splitTopLevel, splitFrom, prepend] using hlast
      | cons next rest =>
          have hrest := ih (List.cons_ne_nil next rest) fun u hu =>
            htexts u (List.mem_cons_of_mem t hu)
          rw [join_cons_cons, hhead.splitTopLevel_comma, hrest]

end StackScript.ArrayText
