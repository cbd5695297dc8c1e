import StackScript.Proofs.Numeral.Integer
import StackScript.Proofs.Simulation.Value
import StackScript.Proofs.Value.Written

/-! # Values in messages

For every value there is a depth with which it is not cut short when it is shown. If its numbers are
integers of a length that can be written, then nothing but its depth keeps it from being shown.
-/

namespace StackScript

theorem Number.inspect_avoids (n : Number) : Avoids .tooDeep n.inspect := by
  cases n with
  | int n =>
      rw [inspect, writeInt]
      split
      · exact .error (by simp)
      · exact .ok _
  | float x => exact .ok _

/-- If each element has a property from some depth on, there is a depth from which on all have
it. -/
theorem exists_enough_forall_mem {α : Type} {P : α → Nat → Prop} {items : List α}
    (h : ∀ a ∈ items, ∃ enough, ∀ depth, enough ≤ depth → P a depth) :
    ∃ enough, ∀ depth, enough ≤ depth → ∀ a ∈ items, P a depth := by
  induction items with
  | nil => exact ⟨0, fun _ _ _ ha => absurd ha List.not_mem_nil⟩
  | cons a rest ih =>
      obtain ⟨⟨enough, hhead⟩, hrest⟩ := List.forall_mem_cons.mp h
      obtain ⟨enough', hrest⟩ := ih hrest
      refine ⟨max enough enough', fun depth hdepth => List.forall_mem_cons.mpr ⟨?_, ?_⟩⟩
      · exact hhead depth ((le_max_left _ _).trans hdepth)
      · exact hrest depth ((le_max_right _ _).trans hdepth)

/-- What holds from some depth on also holds where a fixed number of calls is taken from the depth
first. -/
theorem exists_enough_add {P Q : Nat → Prop} (taken : Nat)
    (h : ∃ enough, ∀ depth, enough ≤ depth → P depth) (hstep : ∀ depth, P depth → Q (depth + taken)) :
    ∃ enough, ∀ depth, enough ≤ depth → Q depth := by
  obtain ⟨enough, h⟩ := h
  refine ⟨enough + taken, fun depth hdepth => ?_⟩
  obtain ⟨depth, rfl⟩ := Nat.exists_eq_add_of_le' (Nat.le_of_add_left_le hdepth)
  exact hstep depth (h depth (Nat.le_of_add_le_add_right hdepth))

namespace Value

theorem sizeOf_lt_of_mem_fields {fields : List (Text × Value)} {field : Text × Value}
    (hfield : field ∈ fields) : sizeOf field.2 < sizeOf (object fields) := by
  have hless := List.sizeOf_lt_of_mem hfield
  obtain ⟨name, v⟩ := field
  simp only [object.sizeOf_spec, Prod.mk.sizeOf_spec] at hless ⊢
  omega

/-- Lists inherit what their elements have in common, and objects what the values of their fields
have. -/
@[elab_as_elim]
theorem nested_induction {motive : Value → Prop} (text : ∀ t, motive (.text t))
    (bool : ∀ b, motive (.bool b)) (null : motive .null) (number : ∀ n, motive (.number n))
    (list : ∀ items, (∀ v ∈ items, motive v) → motive (.list items))
    (object : ∀ fields : List (Text × Value), (∀ field ∈ fields, motive field.2) →
      motive (.object fields)) (v : Value) : motive v := by
  induction hsize : sizeOf v using Nat.strongRecOn generalizing v with
  | ind size ih =>
    subst hsize
    cases v with
    | text t => exact text t
    | bool b => exact bool b
    | null => exact null
    | number n => exact number n
    | list items =>
        refine list items fun v hv => ih (sizeOf v) ?_ v rfl
        have hless := List.sizeOf_lt_of_mem hv
        simp only [Value.list.sizeOf_spec]
        omega
    | object fields =>
        exact object fields fun field hfield =>
          ih (sizeOf field.2) (sizeOf_lt_of_mem_fields hfield) field.2 rfl

/-- Every value can be shown or is kept from it by something else, if enough depth is left. -/
theorem exists_enough_inspect (v : Value) :
    ∃ enough, ∀ depth, enough ≤ depth → Avoids .tooDeep (v.inspect depth) := by
  induction v using nested_induction with
  | text t => exact ⟨0, fun depth _ => by simp only [inspect]; exact .ok _⟩
  | bool b => exact ⟨0, fun depth _ => by simp only [inspect]; exact .ok _⟩
  | null => exact ⟨0, fun depth _ => by simp only [inspect]; exact .ok _⟩
  | number n => exact ⟨0, fun depth _ => by simp only [inspect]; exact n.inspect_avoids⟩
  | list items ih =>
      refine exists_enough_add 1 (exists_enough_forall_mem ih) fun depth hshown => ?_
      simp only [inspect]
      exact (Avoids.mapM hshown).bind fun _ _ => .ok _
  | object fields ih =>
      refine exists_enough_add 1 (exists_enough_forall_mem ih) fun depth hshown => ?_
      simp only [inspect]
      refine (Avoids.mapM fun field hfield => ?_).bind fun _ _ => .ok _
      exact (hshown field hfield).bind fun _ _ => .ok _

/-- All numbers in the value, at any depth, are integers that can be written. -/
inductive IsExact : Value → Prop
  | text (t : Text) : IsExact (.text t)
  | bool (b : Bool) : IsExact (.bool b)
  | null : IsExact .null
  | int {n : Int} (hshort : Numeral.isTooLong n = false) : IsExact (.ofInt n)
  | list {items : List Value} (hitems : ∀ v ∈ items, IsExact v) : IsExact (.list items)
  | object {fields : List (Text × Value)} (hfields : ∀ field ∈ fields, IsExact field.2) :
      IsExact (.object fields)

variable {v : Value}

theorem IsPlain.isExact (hv : v.IsPlain) : v.IsExact := by
  induction hv with
  | int hshort => exact .int hshort
  | bool b => exact .bool b
  | list _ ih => exact .list ih

theorem inspect_ofInt {n : Int} (hshort : Numeral.isTooLong n = false) (depth : Nat) :
    (ofInt n).inspect depth = .ok (Numeral.ofInt n) := by
  simp [ofInt, inspect, Number.inspect, Number.writeInt, hshort]

namespace IsExact

/-- Only its depth keeps such a value from being shown. -/
theorem inspect_fails (hv : v.IsExact) (depth : Nat) :
    FailsBy (· = Fault.tooDeep) (v.inspect depth) := by
  induction hv generalizing depth with
  | text t =>
      simp only [inspect]
      exact .ok _
  | bool b =>
      simp only [inspect]
      exact .ok _
  | null =>
      simp only [inspect]
      exact .ok _
  | int hshort =>
      rw [inspect_ofInt hshort]
      exact .ok _
  | @list items _ ih =>
      cases depth with
      | zero => exact .error rfl
      | succ depth =>
          simp only [inspect]
          exact (FailsBy.mapM fun v hv => ih v hv depth).bind fun _ _ => .ok _
  | @object fields _ ih =>
      cases depth with
      | zero => exact .error rfl
      | succ depth =>
          simp only [inspect]
          refine (FailsBy.mapM fun field hfield => ?_).bind fun _ _ => .ok _
          exact (ih field hfield depth).bind fun _ _ => .ok _

theorem exists_enough (hv : v.IsExact) :
    ∃ enough, ∀ depth, enough ≤ depth → FailsBy (fun _ => False) (v.inspect depth) := by
  obtain ⟨enough, henough⟩ := v.exists_enough_inspect
  refine ⟨enough, fun depth hdepth fault hfault => ?_⟩
  exact henough depth hdepth (hv.inspect_fails depth fault hfault ▸ hfault)

end IsExact

end Value

end StackScript
