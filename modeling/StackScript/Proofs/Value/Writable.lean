import Mathlib.Tactic.SplitIfs
import StackScript.Proofs.Storable.Value
import StackScript.Proofs.Value.Depth
import StackScript.Proofs.Value.Shown

/-! # Depth for writing

For every value there is a depth with which it is not cut short when it is written. A text may be
written as the list that it spells, and the texts in that list may spell lists in turn, but each of
them is shorter than the text that it comes from.
-/

namespace StackScript

/-- A computation that settles from some depth on may be followed by one that has enough depth for
each of its results. -/
theorem exists_enough_bind {α β : Type} {x : Nat → Except Fault α}
    {f : Nat → α → Except Fault β} {start : Nat} (hx : Avoids .tooDeep (x start))
    (halike : ∀ depth, start ≤ depth → Alike .tooDeep False Eq (x start) (x depth))
    (hf : ∀ a, x start = .ok a →
      ∃ enough, ∀ depth, enough ≤ depth → Avoids .tooDeep (f depth a)) :
    ∃ enough, ∀ depth, enough ≤ depth → Avoids .tooDeep (x depth >>= f depth) := by
  have hsettled (depth : Nat) (hdepth : start ≤ depth) : x depth = x start :=
    (halike depth hdepth).eq_of_avoids hx
  cases hstart : x start with
  | error fault =>
      refine ⟨start, fun depth hdepth => ?_⟩
      rw [hsettled depth hdepth, hstart]
      rw [hstart] at hx
      exact fun h => hx (congrArg _ (Except.error.inj h))
  | ok a =>
      obtain ⟨enough, hf⟩ := hf a hstart
      refine ⟨max start enough, fun depth hdepth => ?_⟩
      rw [hsettled depth ((le_max_left _ _).trans hdepth), hstart]
      exact hf depth ((le_max_right _ _).trans hdepth)

/-- The elements of an array are spelled by shorter texts. -/
theorem ArrayText.isWithin_of_read {depth : Nat} {t : Text} {items : List Value} (hne : t ≠ [])
    (hread : read depth t = .ok items) : ∀ v ∈ items, v.IsWithin t.length := by
  have hinner : (Text.inner t).length < t.length := by
    have hpos := List.length_pos_iff.mpr hne
    rw [Text.length_inner]
    omega
  exact read_yields (fun h hu => Nat.lt_of_le_of_lt h.length_le hu) .number .bool
    (fun _ hu _ => .text hu) (fun _ => .list) depth hinner items hread

namespace Value

theorem exists_isWithin (v : Value) : ∃ enough, ∀ n, enough ≤ n → v.IsWithin n := by
  induction v using nested_induction with
  | text t => exact ⟨t.length + 1, fun _ hn => .text hn⟩
  | bool b => exact ⟨0, fun _ _ => .bool b⟩
  | null => exact ⟨0, fun _ _ => .null⟩
  | number n => exact ⟨0, fun _ _ => .number n⟩
  | list items ih =>
      obtain ⟨enough, hitems⟩ := exists_enough_forall_mem ih
      exact ⟨enough, fun n hn => .list (hitems n hn)⟩
  | object fields => exact ⟨0, fun _ _ => .object fields⟩

theorem exists_enough_renderItems {items : List Value}
    (h : ∀ v ∈ items, ∃ enough, ∀ depth, enough ≤ depth → Avoids .tooDeep (v.render depth)) :
    ∃ enough, ∀ depth, enough ≤ depth → Avoids .tooDeep (renderItems (render depth) items) := by
  obtain ⟨enough, hitems⟩ := exists_enough_forall_mem h
  exact ⟨enough, fun depth hdepth => (Avoids.mapM (hitems depth hdepth)).bind fun _ _ => .ok _⟩

/-- A text can be written, given that values can whose texts are all shorter. -/
theorem exists_enough_renderText {t : Text}
    (h : ∀ v : Value, v.IsWithin t.length →
      ∃ enough, ∀ depth, enough ≤ depth → Avoids .tooDeep (v.render depth)) :
    ∃ enough, ∀ depth, enough ≤ depth → Avoids .tooDeep (renderText depth (render depth) t) := by
  have hitems (items : List Value) (hitems : ∀ v ∈ items, v.IsWithin t.length) :=
    exists_enough_renderItems fun v hv => h v (hitems v hv)
  simp only [renderText]
  split_ifs with hnumeral hboolean hoperator harray hmatrix
  · refine ⟨0, fun depth _ => (Number.read?_avoids t).bind fun found _ => ?_⟩
    split
    · exact Number.inspect_avoids _
    · exact .ok _
  · exact ⟨0, fun _ _ => .ok _⟩
  · exact ⟨0, fun _ _ => .ok _⟩
  · have hne : t ≠ [] := by
      rintro rfl
      cases harray
    refine exists_enough_bind (ArrayText.read_avoids (le_refl _))
      (fun depth hdepth => ArrayText.read_alike (.inr hdepth) t) fun items hread => ?_
    exact hitems items (ArrayText.isWithin_of_read hne hread)
  · refine exists_enough_bind (Json.readList?_avoids (le_refl t.length))
      (fun depth hdepth => Json.readList?_alike (.inr hdepth) t) fun found hfound => ?_
    cases found with
    | none => exact ⟨0, fun _ _ => .ok _⟩
    | some items => exact hitems items (Json.isWithin_of_readList? (le_refl _) hfound)
  · exact ⟨0, fun _ _ => .ok _⟩

/-- Every value can be written or is kept from it by something else, if enough depth is left. -/
theorem exists_enough_render (v : Value) :
    ∃ enough, ∀ depth, enough ≤ depth → Avoids .tooDeep (v.render depth) := by
  obtain ⟨n, hn⟩ := v.exists_isWithin
  have hv := hn n (le_refl n)
  clear hn
  -- the texts become shorter whenever one is read, and the values are nested less until then
  induction n using Nat.strongRecOn generalizing v with
  | ind n ih =>
    induction hv with
    | @text t hlength =>
        exact exists_enough_add 2 (exists_enough_renderText fun v => ih t.length hlength v)
          fun depth h => h
    | bool b => exact ⟨0, fun depth _ => by rw [render]; exact .ok _⟩
    | number n => exact ⟨0, fun depth _ => by rw [render]; exact n.normalize.inspect_avoids⟩
    | list _ ih => exact exists_enough_add 2 (exists_enough_renderItems ih) fun depth h => h
    | null => exact exists_enough_add 2 null.exists_enough_inspect fun depth h => h.map _
    | object fields =>
        exact exists_enough_add 2 (object fields).exists_enough_inspect fun depth h => h.map _

end Value

end StackScript
