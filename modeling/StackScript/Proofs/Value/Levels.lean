import Mathlib.Order.MinMax
import StackScript.Proofs.Value.Faults
import StackScript.Proofs.Value.Shown

/-! # Levels of nesting

A value whose numbers are integers that can be written is kept from being shown, or written, by its
levels of nesting alone: to show it takes one of the nested calls that are left for each level, and
to write it takes two.
-/

namespace StackScript

/-- If nothing but `e` can go wrong, the list is not worked through because of one of its
elements. -/
theorem mapM_eq_error_iff {ε α β : Type} {f : α → Except ε β} {e : ε} {items : List α}
    (hfails : ∀ a ∈ items, FailsBy (· = e) (f a)) :
    items.mapM f = .error e ↔ ∃ a ∈ items, f a = .error e := by
  induction items with
  | nil => exact ⟨nofun, nofun⟩
  | cons a rest ih =>
      obtain ⟨hhead, hrest⟩ := List.forall_mem_cons.mp hfails
      rw [List.mapM_cons, List.exists_mem_cons_iff, ← ih hrest]
      cases ha : f a with
      | error e' =>
          obtain rfl := hhead e' ha
          exact ⟨fun _ => .inl rfl, fun _ => rfl⟩
      | ok b =>
          rw [ok_bind]
          cases hothers : rest.mapM f with
          | error e' =>
              obtain rfl := FailsBy.mapM hrest e' hothers
              exact ⟨fun _ => .inr rfl, fun _ => rfl⟩
          | ok bs => exact ⟨nofun, nofun⟩

/-- Whatever is made of a result, it fails if the computation of the result does. -/
theorem map_eq_error_iff {ε α β : Type} {x : Except ε α} {f : α → β} {e : ε} :
    (do return f (← x)) = Except.error e ↔ x = .error e := by
  cases x with
  | error e' => simp [bind, Except.bind]
  | ok a => exact ⟨nofun, nofun⟩

theorem lt_foldr_max_iff {n : Nat} {sizes : List Nat} :
    n < sizes.foldr max 0 ↔ ∃ size ∈ sizes, n < size := by
  induction sizes with
  | nil => exact ⟨nofun, nofun⟩
  | cons size rest ih => rw [List.foldr_cons, lt_max_iff, ih, List.exists_mem_cons_iff]

namespace Value

variable {v : Value} {depth : Nat}

/-- How deep lists and objects are nested in the value. -/
def levels : Value → Nat
  | .list items => (items.map levels).foldr max 0 + 1
  | .object fields => (fields.map fun field => levels field.2).foldr max 0 + 1
  | _ => 0
termination_by v => sizeOf v
decreasing_by
  · decreasing_tactic
  · exact sizeOf_lt_of_mem_fields ‹_›

theorem lt_levels_list_iff {items : List Value} :
    depth + 1 < (list items).levels ↔ ∃ v ∈ items, depth < v.levels := by
  rw [levels, Nat.add_lt_add_iff_right, lt_foldr_max_iff]
  simp

theorem lt_levels_object_iff {fields : List (Text × Value)} :
    depth + 1 < (object fields).levels ↔ ∃ field ∈ fields, depth < field.2.levels := by
  rw [levels, Nat.add_lt_add_iff_right, lt_foldr_max_iff]
  simp

/-- To show a value takes one call for each of its levels. -/
theorem IsExact.inspect_eq_error_iff (hv : v.IsExact) :
    v.inspect depth = .error .tooDeep ↔ depth < v.levels := by
  induction hv generalizing depth with
  | text t => simp [inspect, levels]
  | bool b => simp [inspect, levels]
  | null => simp [inspect, levels]
  | int hshort =>
      rw [inspect_ofInt hshort]
      simp [ofInt, levels]
  | @list items hitems ih =>
      cases depth with
      | zero => simp [inspect, levels]
      | succ depth =>
          have hfails (v) (hv : v ∈ items) := (hitems v hv).inspect_fails depth
          rw [lt_levels_list_iff, inspect, map_eq_error_iff, mapM_eq_error_iff hfails]
          exact exists_congr fun v => and_congr_right fun hv => ih v hv
  | @object fields hfields ih =>
      cases depth with
      | zero => simp [inspect, levels]
      | succ depth =>
          rw [lt_levels_object_iff, inspect, map_eq_error_iff, mapM_eq_error_iff]
          · refine exists_congr fun field => and_congr_right fun hfield => ?_
            rw [map_eq_error_iff]
            exact ih field hfield
          · intro field hfield
            exact ((hfields field hfield).inspect_fails depth).bind fun _ _ => .ok _

/-- Only its depth keeps a plain value from being written. -/
theorem IsPlain.render_fails (hv : v.IsPlain) (depth : Nat) :
    FailsBy (· = Fault.tooDeep) (v.render depth) := by
  induction hv generalizing depth with
  | int hshort =>
      rw [render, Number.write_int hshort]
      exact .ok _
  | bool b =>
      rw [render]
      exact .ok _
  | @list items _ ih =>
      rcases depth with _ | _ | depth
      · exact .error rfl
      · exact .error rfl
      · rw [render]
        exact (FailsBy.mapM fun v hv => ih v hv depth).bind fun _ _ => .ok _

/-- The value in `n` lists, each of which is the only element of the next. -/
def nest : (n : Nat) → Value → Value
  | 0, v => v
  | n + 1, v => .list [nest n v]

theorem levels_nest (n : Nat) (v : Value) : (nest n v).levels = n + v.levels := by
  induction n with
  | zero => rw [nest, Nat.zero_add]
  | succ n ih =>
      rw [nest, levels, List.map_singleton, ih, List.foldr_cons, List.foldr_nil, Nat.max_zero]
      omega

theorem IsPlain.nest (n : Nat) (hv : v.IsPlain) : (nest n v).IsPlain := by
  induction n with
  | zero => exact hv
  | succ n ih => exact .list (List.forall_mem_singleton.mpr ih)

theorem IsExact.nest (n : Nat) (hv : v.IsExact) : (nest n v).IsExact := by
  induction n with
  | zero => exact hv
  | succ n ih => exact .list (List.forall_mem_singleton.mpr ih)

end Value

end StackScript
