import StackScript.Operator.Operand
import StackScript.Proofs.Text.Unbroken
import StackScript.Proofs.Value.Cutting
import StackScript.Proofs.Value.Written

/-! # What slots hold

A slot of the stack holds a text, a number, a truth value or a list. Lists hold numbers, texts
and lists in turn, and no text anywhere holds a line break.

The array that a text spells may hold truth values besides. It never comes onto the stack as
it is: operators take it apart.
-/

namespace StackScript

/-- If the computation gives anything, then it gives something with the property. -/
def Yields {ε α : Type} (P : α → Prop) (x : Except ε α) : Prop := ∀ a, x = .ok a → P a

namespace Yields

variable {ε α β : Type} {P : α → Prop} {Q : β → Prop} {x : Except ε α}

theorem ok {a : α} (ha : P a) : Yields P (.ok a : Except ε α) := by
  rintro _ ⟨⟩
  exact ha

theorem error (e : ε) : Yields P (.error e : Except ε α) := by
  rintro _ ⟨⟩

theorem bind {f : α → Except ε β} (hx : Yields P x) (hf : ∀ a, P a → Yields Q (f a)) :
    Yields Q (x >>= f) := by
  cases x with
  | error e => exact error e
  | ok a => exact hf a (hx a rfl)

/-- Nothing need be known of a result if what follows never depends on it. -/
theorem next {f : α → Except ε β} (hf : ∀ a, Yields Q (f a)) : Yields Q (x >>= f) :=
  bind (P := fun _ => True) (fun _ _ => trivial) fun a _ => hf a

theorem mapM {f : α → Except ε β} {items : List α} (hf : ∀ a ∈ items, Yields Q (f a)) :
    Yields (∀ b ∈ ·, Q b) (items.mapM f) := by
  intro results hresults b hb
  obtain ⟨a, ha, hfa⟩ := Value.exists_of_forall₂ (Value.forall₂_of_mapM_eq_ok hresults) hb
  exact hf a ha b hfa

end Yields

namespace Value

/-- Numbers, texts without line breaks, and lists of such values; truth values too if they
are allowed. -/
inductive IsComposed (truths : Prop) : Value → Prop
  | text {t} (hunbroken : Text.IsUnbroken t) : IsComposed truths (.text t)
  | number (n) : IsComposed truths (.number n)
  | bool (hallowed : truths) (b) : IsComposed truths (.bool b)
  | list {items} (hitems : ∀ v ∈ items, IsComposed truths v) : IsComposed truths (.list items)

/-- What a slot may hold: a truth value, or a value that is composed without any. -/
inductive IsStorable : Value → Prop
  | bool (b) : IsStorable (.bool b)
  | composed {v} (hcomposed : IsComposed False v) : IsStorable v

variable {truths : Prop} {t : Text} {v : Value}

theorem IsComposed.mono {others : Prop} (himp : truths → others) (hv : v.IsComposed truths) :
    v.IsComposed others := by
  induction hv with
  | text hunbroken => exact .text hunbroken
  | number n => exact .number n
  | bool hallowed b => exact .bool (himp hallowed) b
  | list _ ih => exact .list ih

theorem isComposed_list {items : List Value} :
    (list items).IsComposed truths ↔ ∀ v ∈ items, v.IsComposed truths := by
  constructor
  · rintro (_ | _ | _ | hitems)
    exact hitems
  · exact .list

theorem isStorable_text : (text t).IsStorable ↔ Text.IsUnbroken t := by
  constructor
  · rintro (_ | hcomposed)
    cases hcomposed with
    | text hunbroken => exact hunbroken
  · exact fun hunbroken => .composed (.text hunbroken)

theorem isStorable_list {items : List Value} :
    (list items).IsStorable ↔ ∀ v ∈ items, v.IsComposed False := by
  constructor
  · rintro (_ | hcomposed)
    exact isComposed_list.mp hcomposed
  · exact fun hitems => .composed (.list hitems)

theorem isStorable_number (n : Number) : (number n).IsStorable := .composed (.number n)

end Value

/-! ## Array texts -/

namespace ArrayText

variable {depth : Nat} {t part : Text}

section Elements

variable {Q : Text → Prop} (hparts : ∀ {t u : Text}, u.Sublist t → Q t → Q u)
  {P : Value → Prop} (hnumber : ∀ n, P (.number n)) (hbool : ∀ b, P (.bool b))
  (htext : ∀ u, Q u →
    Number.isNumeral u = true ∨ Text.isDelimited '[' ']' u = false → P (.text u))
  (hlist : ∀ items, (∀ v ∈ items, P v) → P (.list items))

include hparts hnumber hbool htext hlist

theorem element_yields {array : Text → Except Fault (List Value)}
    (harray : ∀ u, Q u → Yields (∀ v ∈ ·, P v) (array u)) (hpart : Q part) :
    Yields P (element array part) := by
  have htrimmed := hparts (Text.trim_sublist part) hpart
  unfold element
  simp only
  split
  next hnumeral =>
    refine Yields.next fun read => ?_
    split
    · exact .ok (hnumber _)
    · exact .ok (htext _ htrimmed (.inl hnumeral))
  · split
    · exact .ok (hbool _)
    · split
      next => exact (harray _ htrimmed).bind fun items hitems => .ok (hlist items hitems)
      next hdelimited =>
        exact .ok (htext _ htrimmed (.inr (Bool.eq_false_iff.mpr hdelimited)))

/-- All values that a text spells as an array have a property if numbers and truth values have it,
lists inherit it from their elements, and those texts have it that may be cut out of the text and
are numerals or stand in no brackets. -/
theorem read_yields (depth : Nat) (ht : Q (Text.inner t)) :
    Yields (∀ v ∈ ·, P v) (read depth t) := by
  induction depth using Nat.strongRecOn generalizing t with
  | ind depth ih =>
    match depth with
    | 0 | 1 | 2 => exact .error _
    | depth + 3 =>
        rw [read]
        split
        · exact .ok (List.forall_mem_nil _)
        · refine Yields.mapM fun part hpart => ?_
          exact element_yields hparts hnumber hbool htext hlist
            (fun u hu => ih depth (by omega) (hparts (Text.inner_sublist u) hu))
            (hparts (sublist_of_mem_splitFrom hpart) ht)

end Elements

/-- An array text without line breaks spells a list of numbers, truth values, texts without
line breaks, and lists of these. -/
theorem read_composed (depth : Nat) (ht : Text.IsUnbroken t) :
    Yields (∀ v ∈ ·, Value.IsComposed True v) (read depth t) :=
  read_yields (fun h hu => hu.subset h.subset) .number (.bool trivial) (fun _ hu _ => .text hu)
    (fun _ => .list) depth (ht.subset (Text.inner_sublist t).subset)

end ArrayText

/-! ## Operands -/

namespace Value

variable {depth : Nat} {v : Value}

/-- If the value is a list, then its elements are composed, perhaps with truth values. -/
def HasComposedElements (v : Value) : Prop :=
  ∀ items, v = .list items → ∀ x ∈ items, x.IsComposed True

theorem coerce_array_composed (hv : v.IsStorable) :
    Yields HasComposedElements (v.coerce depth .array) := by
  unfold coerce
  cases v with
  | text t =>
      have hread := ArrayText.read_composed depth (isStorable_text.mp hv)
      simp only [convert]
      cases harray : ArrayText.read depth t with
      | ok items =>
          refine .ok ?_
          rintro _ ⟨⟩
          exact hread items harray
      | error fault =>
          simp only [bind, Except.bind]
          split
          · exact .ok (by rintro _ ⟨⟩)
          · exact .error _
  | list items =>
      refine .ok ?_
      rintro _ ⟨⟩ x hx
      exact (isStorable_list.mp hv x hx).mono False.elim
  | _ => exact .ok (by rintro _ ⟨⟩)

/-- An operand taken as an array is a list of composed values, which may hold truth values if
it was a text. -/
theorem asList_array_composed (op : Operator) (hv : v.IsStorable) :
    Yields (∀ x ∈ ·, x.IsComposed True) (v.asList depth op .array) := by
  simp only [asList]
  split
  · refine (coerce_array_composed hv).bind fun w hw => ?_
    split
    next items => exact .ok (hw items rfl)
    next => exact Yields.next fun _ => .error _
  · rw [pure_bind]
    exact Yields.next fun _ => .error _

end Value

end StackScript
