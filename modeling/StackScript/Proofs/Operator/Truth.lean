import StackScript.Proofs.Simulation.Operator
import StackScript.Proofs.Value.Faults
import StackScript.Session

/-! # Truth

Conditions are turned into truth values by what they are written as. A value that is too long to be
written stays as it is, and as it is not empty it counts as true.
-/

namespace StackScript

/-! ## Written values -/

/-- Can the word for true begin with the code point? -/
def Text.opensTrue (c : Char) : Bool := lower [c] == ['t']

theorem Text.opensTrue_of_isTrue {t : Text} (htrue : isTrue t = true) :
    ∃ c rest, t = c :: rest ∧ opensTrue c = true := by
  cases t with
  | nil => cases htrue
  | cons c rest =>
      refine ⟨c, rest, rfl, ?_⟩
      have hword : lower (c :: rest) = ['t', 'r', 'u', 'e'] := beq_iff_eq.mp htrue
      rw [lower, List.map_cons] at hword
      rw [opensTrue, lower, List.map_singleton, List.head_eq_of_cons_eq hword]
      rfl

namespace Value

variable {v : Value} {t : Text} {depth : Nat} {truth : Bool}

/-- No number and no list is written like the word for true. -/
theorem not_isTrue_of_textOf (htext : ∀ u, v ≠ .text u) (hbool : ∀ b, v ≠ .bool b)
    (hwritten : v.textOf depth = .ok t) : ¬ Text.isTrue t = true := by
  have hrender : v.render depth = .ok t := by
    cases v with
    | text u => exact absurd rfl (htext u)
    | _ => exact hwritten
  intro htrue
  obtain ⟨c, rest, rfl, hopens⟩ := Text.opensTrue_of_isTrue htrue
  have hcannot (hc : Text.opensTrue c = false) : False := by
    rw [hc] at hopens
    cases hopens
  by_cases hnumber : ∃ n, v = .number n
  · obtain ⟨n, rfl⟩ := hnumber
    rw [render] at hrender
    rcases Number.mem_inspect hrender List.mem_cons_self with hdigit | hmark
    · exact hcannot (Text.forall_isDigit (p := fun c => Text.opensTrue c = false) (by decide) hdigit)
    · have hall : Numeral.marks.all (!Text.opensTrue ·) = true := by decide
      exact hcannot ((Bool.not_eq_true' _).mp (List.all_eq_true.mp hall c hmark))
  · rw [not_exists] at hnumber
    obtain ⟨_, _, heq, rfl | rfl⟩ := opener_of_render htext hnumber hbool hrender
    · cases heq
      exact hcannot (by decide)
    · cases heq
      exact hcannot (by decide)

/-- Whatever is empty or zero can be written, if there is enough depth. -/
theorem textOf_fails_of_not_isTruthy (hempty : ¬ v.isTruthy = true) :
    FailsBy (· = .tooDeep) (v.textOf depth) := by
  cases v with
  | text t => exact .ok t
  | bool b =>
      rw [textOf_bool]
      exact .ok _
  | number n =>
      rw [textOf_number]
      cases n with
      | int n =>
          have hzero : n = 0 := by simpa [isTruthy] using hempty
          rw [hzero, Number.write_int (by decide +kernel)]
          exact .ok _
      | float x =>
          obtain ⟨t, ht⟩ := Number.exists_write_float x
          rw [ht]
          exact .ok t
  | null =>
      rcases depth with _ | _ | depth
      · exact .error rfl
      · exact .error rfl
      · simp only [textOf, render, inspect]
        exact .ok _
  | list items =>
      obtain rfl : items = [] := by simpa [isTruthy] using hempty
      rcases depth with _ | _ | depth
      · exact .error rfl
      · exact .error rfl
      · exact .ok _
  | object fields =>
      obtain rfl : fields = [] := by simpa [isTruthy] using hempty
      rcases depth with _ | _ | _ | depth
      · exact .error rfl
      · exact .error rfl
      · exact .error rfl
      · exact .ok _

theorem IsTooLong.isTruthy (hlong : v.IsTooLong depth) : v.isTruthy = true := by
  obtain ⟨fault, hlength, herror⟩ := hlong
  by_contra hempty
  exact hlength.ne_tooDeep (textOf_fails_of_not_isTruthy hempty fault herror)

/-! ## Conditions -/

/-- The truth value, or a text that is the word for it in any letter case. -/
inductive IsTrue : Value → Prop
  | bool : IsTrue (.bool true)
  | text {t : Text} (hlower : Text.lower t = "true".toList) : IsTrue (.text t)

theorem IsNative.isTrue_iff (hnative : v.IsNative) : v.IsTrue ↔ v = .bool true := by
  constructor
  · intro htrue
    cases htrue with
    | bool => rfl
    | text => cases hnative
  · rintro rfl
    exact .bool

/-- The value can be used as a condition, and `truth` is what it counts as: true if it is the truth
value or spells it, and also if it is too long to be written. -/
structure CountsAs (depth : Nat) (v : Value) (truth : Bool) : Prop where
  shallow : ¬ v.IsTooDeep depth
  iff : truth = true ↔ v.IsTrue ∨ v.IsTooLong depth

theorem convert_boolean (hbool : ∀ b, v ≠ .bool b) (depth : Nat) :
    v.convert depth .boolean = (v.textOf depth).map fun t => .bool (Text.isTrue t) := by
  cases v with
  | bool b => exact absurd rfl (hbool b)
  | _ => rfl

theorem toBool_of_isTooDeep (hdeep : v.IsTooDeep depth) : v.toBool depth = .error .tooDeep := by
  have hbool (b : Bool) : v ≠ .bool b := by
    rintro rfl
    rw [IsTooDeep, textOf_bool] at hdeep
    cases hdeep
  rw [toBool, coerce, convert_boolean hbool, hdeep]
  rfl

theorem toBool_of_isTooLong (hlong : v.IsTooLong depth) : v.toBool depth = .ok true := by
  have htruthy := hlong.isTruthy
  obtain ⟨fault, hlength, herror⟩ := hlong
  have hbool (b : Bool) : v ≠ .bool b := by
    rintro rfl
    rw [textOf_bool] at herror
    cases herror
  rw [toBool, coerce, convert_boolean hbool, herror]
  simp only [Except.map, hlength.isConversionFailure, if_true, ok_bind, htruthy]
  rfl

/-- What can be written counts as true exactly if it is the truth value or spells it. -/
theorem exists_toBool_of_textOf (hwritten : v.textOf depth = .ok t) :
    ∃ truth, v.toBool depth = .ok truth ∧ (truth = true ↔ v.IsTrue) := by
  have hspelled (hbool : ∀ b, v ≠ .bool b) : v.toBool depth = .ok (Text.isTrue t) := by
    rw [toBool, coerce, convert_boolean hbool, hwritten]
    rfl
  by_cases hbool : ∃ b, v = .bool b
  · obtain ⟨b, rfl⟩ := hbool
    refine ⟨b, rfl, fun htrue => htrue ▸ .bool, ?_⟩
    rintro ⟨⟩
    rfl
  rw [not_exists] at hbool
  refine ⟨Text.isTrue t, hspelled hbool, ?_⟩
  by_cases htext : ∃ u, v = .text u
  · obtain ⟨u, rfl⟩ := htext
    cases hwritten
    refine ⟨fun htrue => .text (beq_iff_eq.mp htrue), ?_⟩
    rintro ⟨⟩
    exact beq_iff_eq.mpr ‹_›
  rw [not_exists] at htext
  refine iff_of_false (not_isTrue_of_textOf htext hbool hwritten) ?_
  rintro ⟨⟩
  · exact hbool _ rfl
  · exact htext _ rfl

theorem CountsAs.toBool (hv : v.CountsAs depth truth) : v.toBool depth = .ok truth := by
  cases hwritten : v.textOf depth with
  | error fault =>
      have hlong := isTooLong_of_textOf_eq_error hv.shallow hwritten
      rw [toBool_of_isTooLong hlong, hv.iff.mpr (.inr hlong)]
  | ok t =>
      have hshort : ¬ v.IsTooLong depth := by
        rintro ⟨fault, _, herror⟩
        rw [hwritten] at herror
        cases herror
      obtain ⟨counted, hcounted, htrue⟩ := exists_toBool_of_textOf hwritten
      have hsame : counted = truth :=
        Bool.eq_iff_iff.mpr (htrue.trans (hv.iff.trans (or_iff_left hshort)).symm)
      rw [hcounted, hsame]

theorem exists_countsAs (hshallow : ¬ v.IsTooDeep depth) : ∃ truth, v.CountsAs depth truth := by
  classical
  exact ⟨decide (v.IsTrue ∨ v.IsTooLong depth), hshallow, decide_eq_true_iff⟩

end Value

namespace Operator

variable {depth : Nat} {v w : Value} {p q : Bool}

/-- The operators that ask whether `v` is true go by `p`. A second condition that does not matter
need not be one. -/
structure GoesBy (depth : Nat) (v : Value) (p : Bool) : Prop where
  not : ∀ s, apply depth .not (v :: s) = ⟨.text (Text.ofBool !p) :: s, none⟩
  choice : ∀ a b s, apply depth .ifElse (v :: a :: b :: s) = ⟨(if p then b else a) :: s, none⟩
  both : ∀ w q, w.CountsAs depth q → ∀ s,
    apply depth .and (w :: v :: s) = ⟨.bool (p && q) :: s, none⟩
  either : ∀ w q, w.CountsAs depth q → ∀ s,
    apply depth .or (w :: v :: s) = ⟨.bool (p || q) :: s, none⟩
  both_of_false : p = false → ∀ w s, apply depth .and (w :: v :: s) = ⟨.bool false :: s, none⟩
  either_of_true : p = true → ∀ w s, apply depth .or (w :: v :: s) = ⟨.bool true :: s, none⟩

theorem goesBy_of_toBool (hv : v.toBool depth = .ok p) : GoesBy depth v p where
  not s := by
    rw [apply, unary_cons, hv]
    rfl
  choice a b s := by
    rw [apply, choose_cons, hv]
    rfl
  both w q hw s := by
    rw [apply, binary_cons, Operation.and, hv, hw.toBool]
    cases p <;> rfl
  either w q hw s := by
    rw [apply, binary_cons, Operation.or, hv, hw.toBool]
    cases p <;> rfl
  both_of_false hp w s := by
    subst hp
    rw [apply, binary_cons, Operation.and, hv]
    rfl
  either_of_true hp w s := by
    subst hp
    rw [apply, binary_cons, Operation.or, hv]
    rfl

/-- The operators that ask whether `v` is true fail, as `v` is too deep. -/
structure GivesUp (depth : Nat) (v : Value) : Prop where
  not : ∀ s, apply depth .not (v :: s) = ⟨s, some .tooDeep⟩
  choice : ∀ a b s, apply depth .ifElse (v :: a :: b :: s) = ⟨s, some .tooDeep⟩
  both : ∀ w s, apply depth .and (w :: v :: s) = ⟨s, some .tooDeep⟩
  either : ∀ w s, apply depth .or (w :: v :: s) = ⟨s, some .tooDeep⟩

theorem givesUp_of_toBool (hv : v.toBool depth = .error .tooDeep) : GivesUp depth v where
  not s := by
    rw [apply, unary_cons, hv]
    rfl
  choice a b s := by
    rw [apply, choose_cons, hv]
    rfl
  both w s := by
    rw [apply, binary_cons, Operation.and, hv]
    rfl
  either w s := by
    rw [apply, binary_cons, Operation.or, hv]
    rfl

/-- Every value that is not too deep is true or false to all operators that ask. Besides the truth
value and the texts that spell it, those values are true that are too long to be written: of
numbers, and of lists of numbers and truth values, those that hold a long integer. -/
theorem condition_counts (depth : Nat) (v : Value) :
    (v.IsTooDeep depth ∧ GivesUp depth v) ∨
      ∃ p, v.CountsAs depth p ∧ GoesBy depth v p ∧
        (v.IsNative → (p = true ↔ v = .bool true ∨ v.HoldsLongInteger)) := by
  by_cases hshallow : v.IsTooDeep depth
  · exact .inl ⟨hshallow, givesUp_of_toBool (Value.toBool_of_isTooDeep hshallow)⟩
  · obtain ⟨p, hp⟩ := Value.exists_countsAs hshallow
    refine .inr ⟨p, hp, goesBy_of_toBool hp.toBool, fun hnative => ?_⟩
    rw [hp.iff, hnative.isTrue_iff, hnative.isTooLong_iff hshallow]

/-- Ten to the power of 4300 has one digit too many to be written, and its negation is false. -/
theorem runProgram_not_power :
    (runProgram "10 4300 ** !".toList).toOption = some "false".toList := by
  decide +kernel

end Operator

end StackScript
