import StackScript.Proofs.Numeral.Double
import StackScript.Proofs.Simulation.Alike
import StackScript.Proofs.Value.Cutting
import StackScript.Proofs.Value.Written

/-! # Values that cannot be written

There are two reasons why a value cannot be written: it is nested too deeply, or an integer in it,
or one that is spelled in it, has more digits than can be converted.
-/

namespace StackScript

/-! ## Faults of writing -/

/-- The digits of an integer are too many, for reading or for writing it. -/
def Fault.IsOfLength (fault : Fault) : Prop :=
  fault = .integerTooLong ∨ ∃ digits, fault = .numeralTooLong digits

/-- A value is too long or too deep. -/
def Fault.IsOfWriting (fault : Fault) : Prop := fault = .tooDeep ∨ fault.IsOfLength

namespace Fault.IsOfLength

variable {fault : Fault}

theorem ne_tooDeep (h : fault.IsOfLength) : fault ≠ .tooDeep := by
  rintro rfl
  rcases h with h | ⟨_, h⟩ <;> cases h

theorem isConversionFailure (h : fault.IsOfLength) : fault.isConversionFailure = true := by
  rcases h with rfl | ⟨_, rfl⟩ <;> rfl

end Fault.IsOfLength

theorem Number.inspect_fails (n : Number) : FailsBy Fault.IsOfWriting n.inspect := by
  cases n with
  | int n =>
      simp only [inspect, writeInt]
      split
      · exact .error (.inr (.inl rfl))
      · exact .ok _
  | float x => exact .ok _

theorem Number.read?_fails (t : Text) : FailsBy Fault.IsOfWriting (read? t) := by
  unfold read? readInt
  simp only
  split
  · split
    · exact .error (.inr (.inr ⟨_, rfl⟩))
    · exact .ok _
  · exact .ok _

/-- Besides its depth only a numeral that is cut out of it can keep an array text from being
read. -/
theorem ArrayText.read_failsBy {P : Fault → Prop} {Q : Text → Prop}
    (hparts : ∀ {t u : Text}, u.Sublist t → Q t → Q u) (hdeep : P .tooDeep)
    (hnumeral : ∀ u, Q u → Number.isNumeral u = true → u.getLast? ≠ some '\n' →
      FailsBy P (Number.read? u))
    (depth : Nat) {t : Text} (ht : Q (Text.inner t)) : FailsBy P (read depth t) := by
  induction depth using Nat.strongRecOn generalizing t with
  | ind depth ih =>
    match depth with
    | 0 | 1 | 2 => exact .error hdeep
    | depth + 3 =>
        rw [read]
        split
        · exact .ok _
        · refine .mapM fun part hpart => ?_
          have htrimmed := hparts
            ((Text.trim_sublist part).trans (sublist_of_mem_splitFrom hpart)) ht
          simp only [element]
          split
          next hform =>
            have hlast : (Text.trim part).getLast? ≠ some '\n' :=
              fun hfeed => Text.not_isBlank_of_getLast?_trim hfeed (by decide)
            refine (hnumeral _ htrimmed hform hlast).bind fun found _ => ?_
            split <;> exact .ok _
          split
          · exact .ok _
          split
          · have hinner := hparts (Text.inner_sublist _) htrimmed
            exact (ih depth (by omega) hinner).bind fun items _ => .ok _
          · exact .ok _

theorem ArrayText.read_fails (depth : Nat) (t : Text) :
    FailsBy Fault.IsOfWriting (read depth t) :=
  read_failsBy (Q := fun _ => True) (fun _ => id) (.inl rfl) (fun u _ _ _ => Number.read?_fails u)
    depth trivial

theorem Json.readList?_fails (depth : Nat) (t : Text) :
    FailsBy (fun fault => fault = .tooDeep) (readList? depth t) := by
  unfold readList?
  split
  · exact .ok _
  · exact .error rfl
  · exact .ok _

namespace Value

theorem inspect_fails (depth : Nat) (v : Value) :
    FailsBy Fault.IsOfWriting (v.inspect depth) := by
  induction depth generalizing v with
  | zero =>
      cases v <;> simp only [inspect] <;>
        first | exact Number.inspect_fails _ | exact .ok _ | exact .error (.inl rfl)
  | succ depth ih =>
      cases v with
      | list items =>
          simp only [inspect]
          exact (FailsBy.mapM fun v _ => ih v).bind fun shown _ => .ok _
      | object fields =>
          simp only [inspect]
          refine (FailsBy.mapM fun field _ => ?_).bind fun shown _ => .ok _
          exact (ih field.2).bind fun shown _ => .ok _
      | number n => exact n.inspect_fails
      | _ => exact .ok _

section Items

variable {item : Value → Except Fault Text} (hitem : ∀ v, FailsBy Fault.IsOfWriting (item v))

include hitem

theorem renderItems_fails (items : List Value) :
    FailsBy Fault.IsOfWriting (renderItems item items) :=
  (FailsBy.mapM fun v _ => hitem v).bind fun _ _ => .ok _

theorem renderText_fails (depth : Nat) (t : Text) :
    FailsBy Fault.IsOfWriting (renderText depth item t) := by
  simp only [renderText]
  split
  · refine (Number.read?_fails t).bind fun found _ => ?_
    split
    · exact Number.inspect_fails _
    · exact .ok _
  split
  · exact .ok _
  split
  · exact .ok _
  split
  · exact (ArrayText.read_fails depth t).bind fun items _ => renderItems_fails hitem items
  split
  · refine ((Json.readList?_fails depth t).imp fun _ => .inl).bind fun found _ => ?_
    split
    · exact renderItems_fails hitem _
    · exact .ok _
  · exact .ok _

end Items

/-- Only its depth or the length of an integer keeps a value from being written. -/
theorem render_fails (depth : Nat) (v : Value) : FailsBy Fault.IsOfWriting (v.render depth) := by
  induction depth using Nat.strongRecOn generalizing v with
  | ind depth ih =>
    match depth, v with
    | _, .bool b =>
        rw [render]
        exact .ok _
    | _, .number n =>
        rw [render]
        exact n.normalize.inspect_fails
    | 0, .list _ | 0, .text _ | 0, .null | 0, .object _ => exact .error (.inl rfl)
    | 1, .list _ | 1, .text _ | 1, .null | 1, .object _ => exact .error (.inl rfl)
    | depth + 2, .list items => exact renderItems_fails (ih depth (by omega)) items
    | depth + 2, .text t => exact renderText_fails (ih depth (by omega)) depth t
    | depth + 2, .null => exact (inspect_fails depth .null).map _
    | depth + 2, .object fields => exact (inspect_fails depth (.object fields)).map _

/-! ## Operands -/

variable {v : Value} {items : List Value} {depth : Nat}

/-- The value is nested too deeply to be written with `depth` nested calls left. -/
def IsTooDeep (depth : Nat) (v : Value) : Prop := v.textOf depth = .error .tooDeep

/-- An integer in the value, or one that is spelled in it, is too long, which keeps the value from
being written with `depth` nested calls left. -/
def IsTooLong (depth : Nat) (v : Value) : Prop :=
  ∃ fault : Fault, fault.IsOfLength ∧ v.textOf depth = .error fault

theorem textOf_fails (depth : Nat) (v : Value) : FailsBy Fault.IsOfWriting (v.textOf depth) := by
  unfold textOf
  split
  · exact .ok _
  · exact render_fails depth v

theorem isTooLong_of_textOf_eq_error {fault : Fault} (hshallow : ¬ v.IsTooDeep depth)
    (herror : v.textOf depth = .error fault) : v.IsTooLong depth := by
  rcases textOf_fails depth v fault herror with rfl | hlength
  · exact absurd herror hshallow
  · exact ⟨fault, hlength, herror⟩

theorem textOf_number (n : Number) (depth : Nat) : (number n).textOf depth = n.write := by
  change (number n).render depth = n.write
  rw [render]

theorem textOf_bool (b : Bool) (depth : Nat) :
    (Value.bool b).textOf depth = .ok (Text.ofBool b) := by
  change (Value.bool b).render depth = .ok (Text.ofBool b)
  rw [render]

theorem not_isTooDeep_ofInt {n : Int} (hshort : Numeral.isTooLong n = false) (depth : Nat) :
    ¬ (ofInt n).IsTooDeep depth := by
  intro hdeep
  rw [IsTooDeep, ofInt, textOf_number, Number.write_int hshort] at hdeep
  cases hdeep

/-! ## Lists of numbers -/

/-- Numbers, truth values, and lists of such values. -/
inductive IsNative : Value → Prop
  | number (n : Number) : IsNative (.number n)
  | bool (b : Bool) : IsNative (.bool b)
  | list {items : List Value} (hitems : ∀ v ∈ items, IsNative v) : IsNative (.list items)

/-- The value is an integer with more digits than can be converted, or a list that holds one at any
depth. -/
inductive HoldsLongInteger : Value → Prop
  | int {n : Int} (hlong : Numeral.isTooLong n = true) : HoldsLongInteger (.ofInt n)
  | list {items : List Value} {v : Value} (hv : v ∈ items) (hholds : HoldsLongInteger v) :
      HoldsLongInteger (.list items)

theorem HoldsLongInteger.render_ne_ok (hholds : v.HoldsLongInteger) (depth : Nat) (t : Text) :
    v.render depth ≠ .ok t := by
  intro hrender
  induction hholds generalizing depth t with
  | @int n hlong =>
      rw [ofInt, render, Number.write_int_of_isTooLong hlong] at hrender
      cases hrender
  | @list items v hv _ ih =>
      rcases depth with _ | _ | depth
      · cases hrender
      · cases hrender
      · obtain ⟨texts, htexts, -⟩ := renderItems_eq_ok hrender
        obtain ⟨t, -, ht⟩ := exists_of_forall₂ htexts.flip hv
        exact ih depth t ht

/-- A number that cannot be written is a long integer, since every double can be written. -/
theorem holdsLongInteger_number {n : Number} {fault : Fault} (herror : n.write = .error fault) :
    HoldsLongInteger (.number n) := by
  cases n with
  | int n =>
      refine .int (Bool.of_not_eq_false fun hshort => ?_)
      rw [Number.write_int hshort] at herror
      cases herror
  | float x =>
      obtain ⟨t, ht⟩ := Number.exists_write_float x
      rw [ht] at herror
      cases herror

theorem IsNative.render_fails (hnative : v.IsNative) (depth : Nat) :
    FailsBy (fun fault => fault = .tooDeep ∨ v.HoldsLongInteger) (v.render depth) := by
  induction hnative generalizing depth with
  | number n =>
      intro fault hfault
      rw [render] at hfault
      exact .inr (holdsLongInteger_number hfault)
  | bool b =>
      rw [render]
      exact .ok _
  | @list items hitems ih =>
      rcases depth with _ | _ | depth
      · exact .error (.inl rfl)
      · exact .error (.inl rfl)
      · refine (FailsBy.mapM fun v hv => ?_).bind fun _ _ => .ok _
        exact fun fault hfault => (ih v hv depth fault hfault).imp_right (.list hv)

/-- Among numbers, truth values and lists of these it is the integers that are too long. -/
theorem IsNative.isTooLong_iff (hnative : v.IsNative) (hshallow : ¬ v.IsTooDeep depth) :
    v.IsTooLong depth ↔ v.HoldsLongInteger := by
  have htext : v.textOf depth = v.render depth := by cases hnative <;> rfl
  constructor
  · rintro ⟨fault, hlength, herror⟩
    exact (hnative.render_fails depth fault (htext ▸ herror)).resolve_left hlength.ne_tooDeep
  · intro hholds
    cases hwritten : v.textOf depth with
    | error fault => exact isTooLong_of_textOf_eq_error hshallow hwritten
    | ok t => exact absurd (htext ▸ hwritten) (hholds.render_ne_ok depth t)

end Value

end StackScript
