import StackScript.Proofs.Numeral.Spelling
import StackScript.Proofs.Value.Faults
import StackScript.Proofs.Value.StringText
import StackScript.Proofs.Value.Writable

/-! # What conversions give

Nothing but its depth keeps a value from being converted, to whatever kind. A text is converted to
its own kind as its classification promises: the form alone tells that its number, its truth value
or its list will be found, unless the digits in it are too many.
-/

namespace StackScript

/-- The text has no more digits than can be converted, and no line feed at its end. -/
structure Text.IsRegular (t : Text) : Prop where
  countP_le : t.countP Char.isDigit ≤ Numeral.digitLimit
  getLast?_ne : t.getLast? ≠ some '\n'

/-- What a text that is classified as the kind is to be converted to. -/
def Text.Delivers (t : Text) : Kind → Value → Prop
  | .number, v => ∃ n, v = .number n
  | .boolean, v => ∃ b, v = .bool b
  | .array, v => ∃ items, v = .list items
  | .matrix, v => v = .null ∨ ∃ items, v = .list items
  | .string, v => v = .text (Text.inner t)
  | .operator, v | .lambda, v | .literal, v => v = .text t

/-- Without too many digits nothing but its depth keeps an array text from being read. -/
theorem ArrayText.read_fails_of_countP_le {depth : Nat} {t : Text}
    (hdigits : t.countP Char.isDigit ≤ Numeral.digitLimit) :
    FailsBy (fun fault => fault = .tooDeep) (read depth t) := by
  refine read_failsBy (P := fun fault => fault = .tooDeep)
    (Q := fun u => u.countP Char.isDigit ≤ Numeral.digitLimit)
    (fun h hu => h.countP_le.trans hu) rfl (fun u hu hform hlast => ?_) depth
    ((Text.inner_sublist t).countP_le.trans hdigits)
  obtain ⟨n, hn⟩ := Number.exists_read? hform hlast hu
  rw [hn]
  exact .ok _

namespace Value

variable {depth : Nat} {v w : Value} {k : Kind} {t : Text}

/-! ## Conversions are total -/

theorem convert_fails (depth : Nat) (v : Value) (k : Kind) :
    FailsBy Fault.IsOfWriting (v.convert depth k) := by
  unfold convert
  split
  · refine ((Json.readList?_fails _ _).imp fun _ => .inl).bind fun found _ => ?_
    split <;> exact .ok _
  · refine (Number.read?_fails _).bind fun found _ => ?_
    split <;> exact .ok _
  · exact .ok _
  · exact (ArrayText.read_fails _ _).bind fun _ _ => .ok _
  · exact .ok _
  · exact (textOf_fails _ _).bind fun _ _ => .ok _
  · exact .ok _

/-- Nothing but its depth keeps a value from being converted. -/
theorem coerce_fails (depth : Nat) (v : Value) (k : Kind) :
    FailsBy (fun fault => fault = .tooDeep) (v.coerce depth k) := by
  unfold coerce
  cases hconvert : v.convert depth k with
  | ok w => exact .ok w
  | error fault =>
      rcases convert_fails depth v k fault hconvert with rfl | hlength
      · exact .error rfl
      · simp only [hlength.isConversionFailure, if_true]
        exact .ok v

theorem exists_enough_convert (v : Value) (k : Kind) :
    ∃ enough, ∀ depth, enough ≤ depth → Avoids .tooDeep (v.convert depth k) := by
  obtain ⟨enough, hrender⟩ := v.exists_enough_render
  cases v with
  | text t =>
      refine ⟨3 * t.length + 3, fun depth hdepth => ?_⟩
      cases k with
      | matrix =>
          refine (Json.readList?_avoids (by omega)).bind fun found _ => ?_
          split <;> exact .ok _
      | number =>
          refine (Number.read?_avoids t).bind fun found _ => ?_
          split <;> exact .ok _
      | array => exact (ArrayText.read_avoids hdepth).bind fun _ _ => .ok _
      | _ => exact .ok _
  | bool b => exact ⟨0, fun _ _ => by cases k <;> exact .ok _⟩
  | _ =>
      cases k with
      | boolean => exact ⟨enough, fun depth hdepth => (hrender depth hdepth).bind fun _ _ => .ok _⟩
      | _ => exact ⟨0, fun _ _ => .ok _⟩

/-- Every value is converted to every kind, if enough depth is left. -/
theorem exists_enough_coerce (v : Value) (k : Kind) :
    ∃ enough, ∀ depth, enough ≤ depth → ∃ w, v.coerce depth k = .ok w := by
  obtain ⟨enough, hconvert⟩ := v.exists_enough_convert k
  refine ⟨enough, fun depth hdepth => ?_⟩
  have havoids := hconvert depth hdepth
  unfold coerce
  cases hresult : v.convert depth k with
  | ok w => exact ⟨w, rfl⟩
  | error fault =>
      rcases convert_fails depth v k fault hresult with rfl | hlength
      · exact absurd hresult havoids
      · exact ⟨v, if_pos hlength.isConversionFailure⟩

/-! ## Texts of each kind -/

/-- What is converted without a failure that is passed over is what the conversion gives. -/
theorem convert_of_coerce (hfails : FailsBy (fun fault => fault = .tooDeep) (v.convert depth k))
    (hw : v.coerce depth k = .ok w) : v.convert depth k = .ok w := by
  unfold coerce at hw
  cases hconvert : v.convert depth k with
  | ok u =>
      rw [hconvert] at hw
      exact hw
  | error fault =>
      rw [hconvert, hfails fault hconvert] at hw
      cases hw

theorem exists_read?_of_kind (ht : t.IsRegular) (hk : Text.kind t = .number) :
    ∃ n, Number.read? t = .ok (some n) :=
  Number.exists_read? ((Text.hasForm_iff (k := .number) (by decide)).mpr hk) ht.getLast?_ne
    ht.countP_le

theorem convert_kind_fails (ht : t.IsRegular) (depth : Nat) :
    FailsBy (fun fault => fault = .tooDeep) ((text t).convert depth (Text.kind t)) := by
  cases hk : Text.kind t with
  | number =>
      obtain ⟨n, hn⟩ := exists_read?_of_kind ht hk
      rw [convert, hn]
      exact .ok _
  | array => exact (ArrayText.read_fails_of_countP_le ht.countP_le).bind fun _ _ => .ok _
  | matrix =>
      refine (Json.readList?_fails depth t).bind fun found _ => ?_
      split <;> exact .ok _
  | _ => exact .ok _

theorem delivers_of_convert (ht : t.IsRegular)
    (hw : (text t).convert depth (Text.kind t) = .ok w) : t.Delivers (Text.kind t) w := by
  cases hk : Text.kind t with
  | number =>
      obtain ⟨n, hn⟩ := exists_read?_of_kind ht hk
      rw [hk, convert, hn] at hw
      cases hw
      exact ⟨n, rfl⟩
  | string =>
      rw [hk] at hw
      cases hw
      have hstring : t.inner.IsStringOf t := ⟨hk, ht.getLast?_ne, rfl⟩
      exact congrArg text hstring.content_eq
  | boolean =>
      rw [hk] at hw
      cases hw
      exact ⟨_, rfl⟩
  | array =>
      rw [hk, convert] at hw
      cases hread : ArrayText.read depth t with
      | error fault =>
          rw [hread] at hw
          cases hw
      | ok items =>
          rw [hread] at hw
          cases hw
          exact ⟨items, rfl⟩
  | matrix =>
      rw [hk, convert] at hw
      cases hread : Json.readList? depth t with
      | error fault =>
          rw [hread] at hw
          cases hw
      | ok found =>
          rw [hread] at hw
          cases found <;> cases hw
          · exact .inl rfl
          · exact .inr ⟨_, rfl⟩
  | _ =>
      rw [hk] at hw
      cases hw
      rfl

theorem delivers_of_coerce (ht : t.IsRegular)
    (hw : (text t).coerce depth (Text.kind t) = .ok w) : t.Delivers (Text.kind t) w :=
  delivers_of_convert ht (convert_of_coerce (convert_kind_fails ht depth) hw)

/-- Nothing but its depth keeps a value from being converted to any kind. A text is converted to the
kind that it is classified as just as this kind promises, if it has neither too many digits nor a
line feed at its end. So what counts as a number or as an array is never left as a text. -/
theorem coerce_delivers (v : Value) (k : Kind) :
    (∀ depth fault, v.coerce depth k = .error fault → fault = .tooDeep) ∧
    (∃ enough, ∀ depth, enough ≤ depth → ∃ w, v.coerce depth k = .ok w) ∧
    (∀ t, v = .text t → t.IsRegular → Text.kind t = k →
      ∀ depth w, v.coerce depth k = .ok w → t.Delivers k w) ∧
    ((k = .number ∨ k = .array) → v.isA k = true → (∀ t, v = .text t → t.IsRegular) →
      ∀ depth w, v.coerce depth k = .ok w → ∀ u, w ≠ .text u) := by
  refine ⟨fun depth => coerce_fails depth v k, exists_enough_coerce v k, ?_, ?_⟩
  · rintro t rfl ht rfl depth w hw
    exact delivers_of_coerce ht hw
  · rintro hk hv htext depth w hw u rfl
    cases v with
    | text t =>
        rw [isA_eq, beq_iff_eq] at hv
        subst hv
        have hdelivers := delivers_of_coerce (htext t rfl) hw
        change t.Delivers (Text.kind t) _ at hdelivers
        change Text.kind t = _ ∨ Text.kind t = _ at hk
        rcases hk with hk | hk <;> rw [hk] at hdelivers <;> obtain ⟨_, h⟩ := hdelivers <;> cases h
    | _ => rcases hk with rfl | rfl <;> cases hw

/-- An array text may close more brackets than it opens, leave elements out, and hold numerals of
every form. -/
theorem coerce_delivers_unbalanced :
    let t : Text := "[1]],,.5e+3,[-0.]".toList
    t.IsRegular ∧ Text.kind t = .array ∧ ∃ enough, ∀ depth, enough ≤ depth →
      ∃ items, (text t).coerce depth .array = .ok (.list items) := by
  intro t
  have ht : t.IsRegular := ⟨by decide, by decide⟩
  have hkind : Text.kind t = .array := by decide
  obtain ⟨-, ⟨enough, henough⟩, hdelivers, -⟩ := coerce_delivers (text t) .array
  refine ⟨ht, hkind, enough, fun depth hdepth => ?_⟩
  obtain ⟨w, hw⟩ := henough depth hdepth
  obtain ⟨items, rfl⟩ := hdelivers t rfl ht hkind depth w hw
  exact ⟨items, hw⟩

end Value

end StackScript
