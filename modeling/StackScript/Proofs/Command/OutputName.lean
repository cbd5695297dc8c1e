import StackScript.Command.OutputName

/-! # The leftmost identifier

A name may hold `input-XYZ.txt` more than once. The identifier of the name is the one that
begins first, and a name has none exactly if `input-XYZ.txt` occurs nowhere in it.
-/

namespace StackScript.OutputName

/-- Behind `before` the name goes on with `input-XYZ.txt`, and `digits` are the three digits. -/
def Occurs (name before digits : Text) : Prop :=
  digits.length = 3 ∧ (∀ c ∈ digits, Text.isDecimalDigit c = true) ∧
    ∃ after, name = before ++ "input-".toList ++ digits ++ ".txt".toList ++ after

/-- No occurrence in the name begins before the one with these digits. -/
def IsLeftmost (name digits : Text) : Prop :=
  ∃ before, Occurs name before digits ∧
    ∀ before' digits', Occurs name before' digits' → before.length ≤ before'.length

theorem not_occurs_nil (before digits : Text) : ¬ Occurs [] before digits := by
  rintro ⟨-, -, after, hname⟩
  simp at hname

theorem occurs_cons_iff {c b : Char} {rest before digits : Text} :
    Occurs (c :: rest) (b :: before) digits ↔ b = c ∧ Occurs rest before digits := by
  simp only [Occurs, List.cons_append, List.cons.injEq]
  constructor
  · rintro ⟨hlength, hdigits, after, rfl, hrest⟩
    exact ⟨rfl, hlength, hdigits, after, hrest⟩
  · rintro ⟨rfl, hlength, hdigits, after, hrest⟩
    exact ⟨hlength, hdigits, after, rfl, hrest⟩

theorem dropFront?_eq_some_iff {front t rest : Text} :
    dropFront? front t = some rest ↔ t = front ++ rest := by
  rw [dropFront?]
  split
  next hfront =>
    obtain ⟨more, rfl⟩ := List.isPrefixOf_iff_prefix.1 hfront
    simp
  next hfront =>
    have hne : t ≠ front ++ rest := by
      rintro rfl
      exact hfront (List.isPrefixOf_iff_prefix.2 (List.prefix_append front rest))
    simp [hne]

/-- Reading at the front finds what occurs behind nothing. -/
theorem identifierAtFront?_eq_some_iff {t digits : Text} :
    identifierAtFront? t = some digits ↔ Occurs t [] digits := by
  constructor
  · intro hread
    simp only [identifierAtFront?, Option.bind_eq_bind, Option.bind_eq_some_iff,
      dropFront?_eq_some_iff] at hread
    obtain ⟨rest, rfl, hread⟩ := hread
    split at hread
    next hdigits =>
      simp only [Option.bind_eq_some_iff, dropFront?_eq_some_iff] at hread
      obtain ⟨after, hafter, hread⟩ := hread
      cases hread
      simp only [Bool.and_eq_true, beq_iff_eq, List.all_eq_true] at hdigits
      refine ⟨hdigits.1, hdigits.2, after, ?_⟩
      rw [List.nil_append, List.append_assoc, List.append_assoc, ← hafter,
        List.take_append_drop]
    next => cases hread
  · rintro ⟨hlength, hdigits, after, rfl⟩
    have hfront : dropFront? "input-".toList
        ([] ++ "input-".toList ++ digits ++ ".txt".toList ++ after) =
          some (digits ++ (".txt".toList ++ after)) := by
      simp only [dropFront?_eq_some_iff, List.nil_append, List.append_assoc]
    have hend : dropFront? ".txt".toList (".txt".toList ++ after) = some after :=
      dropFront?_eq_some_iff.2 rfl
    have hall : digits.all Text.isDecimalDigit = true := List.all_eq_true.2 hdigits
    simp only [identifierAtFront?, hfront, Option.bind_eq_bind, Option.bind_some,
      List.take_left' hlength, List.drop_left' hlength, hlength, hall, hend, beq_self_eq_true,
      Bool.and_self, if_true, Option.pure_def]

theorem identifier?_eq_none_iff {name : Text} :
    identifier? name = none ↔ ∀ before digits, ¬ Occurs name before digits := by
  induction name with
  | nil => simp [identifier?, not_occurs_nil]
  | cons c rest ih =>
      rw [identifier?]
      split
      next digits hfront =>
        refine ⟨nofun, fun hname => ?_⟩
        exact absurd (identifierAtFront?_eq_some_iff.1 hfront) (hname [] digits)
      next hfront =>
        rw [ih]
        constructor
        · intro hrest before digits hoccurs
          cases before with
          | nil => simp [identifierAtFront?_eq_some_iff.2 hoccurs] at hfront
          | cons b before => exact hrest before digits (occurs_cons_iff.1 hoccurs).2
        · intro hname before digits hoccurs
          exact hname (c :: before) digits (occurs_cons_iff.2 ⟨rfl, hoccurs⟩)

/-- The identifier of a name is the leftmost one. -/
theorem isLeftmost_of_identifier? {name digits : Text} (hread : identifier? name = some digits) :
    IsLeftmost name digits := by
  induction name with
  | nil => cases hread
  | cons c rest ih =>
      rw [identifier?] at hread
      split at hread
      next found hfront =>
        cases hread
        exact ⟨[], identifierAtFront?_eq_some_iff.1 hfront, fun _ _ _ => Nat.zero_le _⟩
      next hfront =>
        obtain ⟨before, hoccurs, hfirst⟩ := ih hread
        refine ⟨c :: before, occurs_cons_iff.2 ⟨rfl, hoccurs⟩, ?_⟩
        intro before' digits' hoccurs'
        cases before' with
        | nil => simp [identifierAtFront?_eq_some_iff.2 hoccurs'] at hfront
        | cons b before' =>
            exact Nat.succ_le_succ (hfirst before' digits' (occurs_cons_iff.1 hoccurs').2)

end StackScript.OutputName
