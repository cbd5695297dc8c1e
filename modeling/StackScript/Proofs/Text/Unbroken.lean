import Mathlib.Data.List.TakeWhile
import StackScript.Proofs.Text.Trim
import StackScript.Text.Lines
import StackScript.Value.Coerce

/-! # Texts without line breaks

A line of a source holds no line break, and neither does what is cut out of it, what is quoted
or what is repeated.
-/

namespace StackScript.Text

/-- The text holds no line break. -/
def IsUnbroken (t : Text) : Prop := ∀ c ∈ t, isLineBreak c = false

instance (t : Text) : Decidable (IsUnbroken t) :=
  List.decidableBAll (fun c => isLineBreak c = false) t

/-- Repetition adds no code points. -/
theorem flatten_replicate_subset (count : Nat) (t : Text) :
    (List.replicate count t).flatten ⊆ t := by
  intro c hc
  obtain ⟨copy, hcopy, hc⟩ := List.mem_flatten.mp hc
  exact List.eq_of_mem_replicate hcopy ▸ hc

namespace IsUnbroken

variable {t u : Text}

theorem subset (ht : IsUnbroken t) (hsubset : u ⊆ t) : IsUnbroken u :=
  fun c hc => ht c (hsubset hc)

theorem nil : IsUnbroken [] := by simp [IsUnbroken]

theorem cons {c : Char} (hc : isLineBreak c = false) (ht : IsUnbroken t) : IsUnbroken (c :: t) :=
  List.forall_mem_cons.mpr ⟨hc, ht⟩

theorem append (ht : IsUnbroken t) (hu : IsUnbroken u) : IsUnbroken (t ++ u) :=
  List.forall_mem_append.mpr ⟨ht, hu⟩

theorem quote (ht : IsUnbroken t) : IsUnbroken (Text.quote t) :=
  cons (by decide) (ht.append (cons (by decide) nil))

theorem flatten_replicate (ht : IsUnbroken t) (count : Nat) :
    IsUnbroken (List.replicate count t).flatten := ht.subset (flatten_replicate_subset count t)

theorem ofBool (b : Bool) : IsUnbroken (Text.ofBool b) := by
  cases b <;> decide

end IsUnbroken

theorem content_subset (t : Text) : content t ⊆ t := by
  unfold content
  split
  · exact (inner_sublist t).subset
  · exact List.Subset.refl t

/-- The lines of a text hold no line breaks. -/
theorem isUnbroken_of_mem_lines {source line : Text} (hline : line ∈ lines source) :
    IsUnbroken line := by
  fun_induction lines source generalizing line with
  | case1 => simp at hline
  | case2 rest ih =>
      rcases List.mem_cons.mp hline with rfl | hline
      · exact IsUnbroken.nil
      · exact ih hline
  | case3 c rest _ hbreak ih =>
      rcases List.mem_cons.mp hline with rfl | hline
      · exact IsUnbroken.nil
      · exact ih hline
  | case4 c rest _ hbreak hrest ih =>
      obtain rfl := List.mem_singleton.mp hline
      exact IsUnbroken.nil.cons (by simpa using hbreak)
  | case5 c rest _ hbreak first more hrest ih =>
      rw [hrest] at ih
      rcases List.mem_cons.mp hline with rfl | hline
      · exact (ih List.mem_cons_self).cons (by simpa using hbreak)
      · exact ih (List.mem_cons_of_mem first hline)

end StackScript.Text
