import StackScript.Proofs.Simulation.Operation
import StackScript.Proofs.Value.ArrayReading
import StackScript.Proofs.Value.JsonReading

/-! # Values and their written forms serve alike

To an operator a plain value and its written form are the same: they have the same kind,
convert to the same value and are written the same way. Only the depth that it takes to read
and to write them differs.
-/

namespace StackScript

variable {d e : Nat} {v w : Value} {t : Text}

/-- With either side allowed to be cut short, the two sides may be exchanged. -/
theorem Serves.symm (h : Serves True d e v w) : Serves True e d w v where
  depth := Or.inl trivial
  kind := h.kind.symm
  content := h.content.symm
  coerce := fun k hk hkind => (h.coerce k hk (h.kind.trans hkind)).symm trivial
  asNumber := fun op => (h.asNumber op).symm trivial
  textOf := h.textOf.symm trivial
  toInt := h.toInt.symm trivial
  toBool := h.toBool.symm trivial

namespace Value

/-- A plain value whose written form has its kind. -/
structure IsEligible (v : Value) : Prop where
  plain : v.IsPlain
  uniform : v.IsUniform

/-! ## Reading the written form -/

theorem Writes.textOf (hplain : v.IsPlain) (hwrites : v.Writes t) (depth : Nat) :
    Alike .tooDeep True Eq (v.textOf depth) (.ok t) := by
  obtain ⟨enough, hrender⟩ := hwrites
  have hsame := render_alike (d := depth) (e := enough) (Or.inl trivial) v
  rw [hrender] at hsame
  cases hplain <;> exact hsame

theorem Writes.isStringLiteral_eq (heligible : v.IsEligible) (hwrites : v.Writes t) :
    Text.isStringLiteral t = false := by
  have hkind := heligible.plain.kind_eq heligible.uniform hwrites
  rw [Bool.eq_false_iff]
  intro hform
  rw [Text.kind_of_hasForm (k := .string) hform (by decide)] at hkind
  cases heligible.plain with
  | int => cases hkind
  | bool => cases hkind
  | list =>
      simp only [kind] at hkind
      split at hkind <;> cases hkind

/-- What is no number is no number in its written form either. -/
theorem Writes.read?_of_kind_ne (hplain : v.IsPlain) (hwrites : v.Writes t)
    (hkind : v.kind ≠ .number) : Number.read? t = .ok none := by
  cases hplain with
  | int => exact absurd rfl hkind
  | bool b =>
      rw [writes_bool hwrites]
      exact read?_ofBool b
  | list =>
      obtain ⟨texts, _, rfl⟩ := writes_list hwrites
      exact read?_listText texts

theorem coerce_alike_ok {k : Kind} {converted : Value}
    (hconvert : Alike .tooDeep True Eq (v.convert d k) (.ok converted)) :
    Alike .tooDeep True Eq (v.coerce d k) (.ok converted) := by
  unfold Value.coerce
  generalize v.convert d k = x at hconvert ⊢
  cases hconvert with
  | first => exact .first _
  | ok h => exact .ok h

theorem Writes.coerce (hplain : v.IsPlain) (hwrites : v.Writes t) (k : Kind)
    (hk : k = .number ∨ k = .array ∨ k = .matrix) (hkind : v.kind = k) :
    Alike .tooDeep True Eq (v.coerce d k) (Value.coerce e (.text t) k) := by
  -- the value is its own conversion, so only the side of its written form is read
  apply Alike.symm trivial
  cases hplain with
  | @int n hshort =>
      obtain rfl : k = .number := hkind.symm
      apply coerce_alike_ok
      rw [writes_int hshort hwrites, convert, Number.read?_ofInt hshort]
      exact .refl _
  | bool b =>
      subst hkind
      rcases hk with h | h | h <;> cases h
  | @list items hitems =>
      have hlist : IsPlain (.list items) := .list hitems
      rcases hk with rfl | rfl | rfl
      · simp only [kind] at hkind
        split at hkind <;> cases hkind
      · apply coerce_alike_ok
        exact (ArrayText.read_of_writes hlist hwrites items e rfl).bind_ok (.refl _)
      · apply coerce_alike_ok
        exact (Json.readList?_of_writes hlist hwrites e).bind_ok (.refl _)

/-! ## Operands -/

theorem Writes.asNumber (hplain : v.IsPlain) (hwrites : v.Writes t) (op : Operator) :
    Alike .tooDeep True Eq (v.asNumber d op) (Value.asNumber e op (.text t)) := by
  by_cases hkind : v.kind = .number
  · cases hplain with
    | @int n hshort =>
        rw [writes_int hshort hwrites]
        have hread := Number.read?_ofInt hshort
        simp only [Value.asNumber, Value.coerce, convert, hread]
        exact .refl _
    | bool b => cases hkind
    | list =>
        simp only [kind] at hkind
        split at hkind <;> cases hkind
  · have hread := hwrites.read?_of_kind_ne hplain hkind
    have hsame : v.asNumber d op = (do .error (.expected op .number (← v.textOf d))) := by
      cases hplain with
      | int => exact absurd rfl hkind
      | bool => rfl
      | list => rfl
    have htext : Value.asNumber e op (.text t) = .error (.expected op .number t) := by
      simp only [Value.asNumber, Value.coerce, convert, hread]
      rfl
    rw [hsame, htext]
    exact (hwrites.textOf hplain d).bind_ok (.refl _)

theorem Writes.toInt (heligible : v.IsEligible) (hwrites : v.Writes t) :
    Alike .tooDeep True Eq (v.toInt d) (Value.toInt e (.text t)) := by
  have htext : Value.toInt e (.text t) = leadingInt t := by
    simp only [Value.toInt, hwrites.isStringLiteral_eq heligible, Bool.false_eq_true, if_false]
  rw [htext]
  obtain ⟨hplain, _⟩ := heligible
  have hother (h : v.toInt d = (do leadingInt (← v.textOf d))) :
      Alike .tooDeep True Eq (v.toInt d) (leadingInt t) := by
    rw [h]
    exact (hwrites.textOf hplain d).bind_ok (.refl _)
  cases hplain with
  | int hshort =>
      rw [writes_int hshort hwrites, leadingInt_ofInt hshort]
      exact .refl _
  | bool => exact hother rfl
  | list => exact hother rfl

theorem Writes.toBool (hplain : v.IsPlain) (hwrites : v.Writes t) :
    Alike .tooDeep True Eq (v.toBool d) (Value.toBool e (.text t)) := by
  have hconvert : Alike .tooDeep True Eq (v.convert d .boolean) (.ok (.bool (Text.isTrue t))) := by
    have hother := (hwrites.textOf hplain d).bind_ok
      (f := fun t => (.ok (.bool (Text.isTrue t)) : Except Fault Value)) (.refl _)
    cases hplain with
    | int => exact hother
    | bool b =>
        rw [writes_bool hwrites]
        cases b <;> exact .refl _
    | list => exact hother
  exact (coerce_alike_ok hconvert).bind_ok (.refl _)

/-- An operator makes of a value what it makes of its written form. -/
theorem Writes.serves (heligible : v.IsEligible) (hwrites : v.Writes t) :
    Serves True d e v (.text t) where
  depth := Or.inl trivial
  kind := (heligible.plain.kind_eq heligible.uniform hwrites).symm
  content := by
    have hother : Operation.stringContent? v = none := by
      cases heligible.plain <;> rfl
    rw [hother, Operation.stringContent?, hwrites.isStringLiteral_eq heligible]
    rfl
  coerce := hwrites.coerce heligible.plain
  asNumber := hwrites.asNumber heligible.plain
  textOf := hwrites.textOf heligible.plain d
  toInt := hwrites.toInt heligible
  toBool := hwrites.toBool heligible.plain

/-! ## Written again -/

theorem renderText_ofInt {n : Int} {item : Value → Except Fault Text}
    (hshort : Numeral.isTooLong n = false) (depth : Nat) :
    renderText depth item (Numeral.ofInt n) = .ok (Numeral.ofInt n) := by
  rw [renderText, if_pos (Number.isNumeral_ofInt n), Number.read?_ofInt hshort]
  simp only [bind, Except.bind]
  exact Number.write_int hshort

/-- A written list, as raw text, is written again as the list that it spells. -/
theorem renderText_of_list {items : List Value} {item : Value → Except Fault Text}
    {written : Except Fault Text} (heligible : IsEligible (.list items))
    (hwrites : Writes (.list items) t) (depth : Nat)
    (hitems : Alike .tooDeep True Eq (renderItems item items) written) :
    Alike .tooDeep True Eq (renderText depth item t) written := by
  have hkind := heligible.plain.kind_eq heligible.uniform hwrites
  have harray := ArrayText.read_of_writes heligible.plain hwrites items depth rfl
  have hmatrix := Json.readList?_of_writes heligible.plain hwrites depth
  have hoperator : isOperatorName t = false := by
    rw [Bool.eq_false_iff]
    intro hform
    rw [Text.kind_of_hasForm (k := .operator) hform (by decide), kind] at hkind
    split at hkind <;> cases hkind
  obtain ⟨texts, _, rfl⟩ := writes_list hwrites
  rw [renderText, isNumeral_listText, isBooleanLiteral_listText, hoperator]
  simp only [Bool.false_eq_true, if_false]
  split
  · exact harray.bind_ok hitems
  next hform =>
    -- what is no array by its brackets is a matrix, since the kind is that of the list
    have hform' : Text.isMatrixLiteral (listText texts) = true := by
      have hlist : (Value.list items).kind = .matrix := by
        rw [kind]
        refine if_pos (by_contra fun hvector => hform ?_)
        rw [kind, if_neg hvector] at hkind
        exact (Text.hasForm_iff (k := .array) (by decide)).mpr hkind
      exact (Text.hasForm_iff (k := .matrix) (by decide)).mpr (hkind.trans hlist)
    rw [if_pos hform']
    exact hmatrix.bind_ok hitems

/-- The written form of a value is written like the value. -/
theorem Writes.render (heligible : v.IsEligible) (hwrites : v.Writes t) :
    Alike .tooDeep True Eq (v.render d) (Value.render e (.text t)) := by
  apply Alike.symm trivial
  match e with
  | 0 | 1 => exact .first _
  | e + 2 =>
      rw [Value.render]
      cases heligible.plain with
      | int hshort =>
          rw [writes_int hshort hwrites, renderText_ofInt hshort, Value.render,
            Number.write_int hshort]
          exact .ok rfl
      | bool b =>
          rw [writes_bool hwrites, Value.render]
          cases b <;> exact .refl _
      | @list items hitems =>
          apply renderText_of_list heligible hwrites e
          match d with
          | 0 | 1 => exact .second trivial _
          | d + 2 => exact renderItems_alike (fun v => render_alike (Or.inl trivial) v) items

/-- The values are equal, or one of them is the written form of the other. -/
inductive Interchangeable : Value → Value → Prop
  | same (v : Value) : Interchangeable v v
  | written {v : Value} {t : Text} (heligible : v.IsEligible) (hwrites : v.Writes t) :
      Interchangeable v (.text t)
  | read {v : Value} {t : Text} (heligible : v.IsEligible) (hwrites : v.Writes t) :
      Interchangeable (.text t) v

namespace Interchangeable

theorem serves (h : Interchangeable v w) : Serves True d e v w := by
  cases h with
  | same => exact .refl (Or.inl trivial) v
  | written heligible hwrites => exact hwrites.serves heligible
  | read heligible hwrites => exact (hwrites.serves heligible).symm

theorem render (h : Interchangeable v w) :
    Alike .tooDeep True Eq (v.render d) (w.render e) := by
  cases h with
  | same => exact render_alike (Or.inl trivial) v
  | written heligible hwrites => exact hwrites.render heligible
  | read heligible hwrites => exact (hwrites.render heligible).symm trivial

end Interchangeable

end Value

end StackScript
