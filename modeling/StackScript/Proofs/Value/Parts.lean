import Mathlib.Data.List.Induction
import Mathlib.Tactic.Common
import StackScript.Proofs.Value.Cutting

/-! # The parts of a text

The number of open brackets is carried through the whole text and may be negative. A cut is made
only where it is zero, so that within a part it counts the brackets of that part alone. This gives
the three facts by which the parts can be told from the text without reading it from the left.
-/

namespace StackScript.ArrayText

/-! ## Open brackets -/

/-- How many more square brackets a text opens than it closes. -/
def openBrackets (t : Text) : Int := (t.count '[' : Int) - t.count ']'

theorem openBrackets_nil : openBrackets [] = 0 := rfl

theorem openBrackets_singleton (c : Char) : openBrackets [c] = bracketStep c := by
  by_cases hopen : c = '['
  · subst hopen
    rfl
  by_cases hclose : c = ']'
  · subst hclose
    rfl
  simp [openBrackets, bracketStep_eq_zero hopen hclose, hopen, hclose]

theorem openBrackets_concat (t : Text) (c : Char) :
    openBrackets (t ++ [c]) = openBrackets t + bracketStep c := by
  rw [← openBrackets_singleton, openBrackets, openBrackets, openBrackets, List.count_append,
    List.count_append]
  omega

theorem openBrackets_eq_zero {t : Text} : openBrackets t = 0 ↔ t.count '[' = t.count ']' := by
  rw [openBrackets]
  omega

/-! ## Texts without a cut -/

/-- No comma in the text has as many opening as closing brackets before it. -/
def IsUncut (t : Text) : Prop := ∀ front, front ++ [','] <+: t → front.count '[' ≠ front.count ']'

theorem isUncut_nil : IsUncut [] := by
  intro front hfront
  exact absurd (List.prefix_nil.mp hfront) (List.concat_ne_nil ',' front)

theorem isUncut_concat {t : Text} {c : Char} :
    IsUncut (t ++ [c]) ↔ IsUncut t ∧ (c ≠ ',' ∨ openBrackets t ≠ 0) := by
  simp only [IsUncut, List.prefix_concat_iff, Ne, openBrackets_eq_zero, ← not_and_or]
  constructor
  · refine fun h => ⟨fun front hfront => h front (.inr hfront), ?_⟩
    rintro ⟨rfl, hzero⟩
    exact h t (.inl rfl) hzero
  · rintro ⟨ht, hlast⟩ front (heq | hfront)
    · obtain ⟨rfl, hc⟩ := List.append_inj' heq rfl
      exact fun hzero => hlast ⟨(List.singleton_inj.mp hc).symm, hzero⟩
    · exact ht front hfront

namespace IsUncut

variable {t : Text}

/-- Such a text goes into one part, whatever follows it. -/
theorem splitTopLevel_append (ht : IsUncut t) (rest : Text) :
    splitTopLevel (t ++ rest) = prepend t (splitFrom (openBrackets t) rest) := by
  induction t using List.reverseRecOn generalizing rest with
  | nil => exact IsCarried.nil 0 rest
  | append_singleton t c ih =>
      obtain ⟨ht, hcut⟩ := isUncut_concat.mp ht
      rw [List.append_assoc, List.singleton_append, ih ht, splitFrom_cons hcut, ← prepend_append,
        openBrackets_concat]

theorem splitTopLevel_eq (ht : IsUncut t) : splitTopLevel t = [t] := by
  have hsplit := ht.splitTopLevel_append []
  rwa [List.append_nil, splitFrom, prepend, List.append_nil] at hsplit

theorem isCarried (ht : IsUncut t) (heven : t.count '[' = t.count ']') : IsCarried 0 t := by
  intro rest
  have hsplit := ht.splitTopLevel_append rest
  rwa [openBrackets_eq_zero.mpr heven] at hsplit

end IsUncut

/-! ## Cuts -/

/-- What a text is cut into at its commas outside all brackets. A part may close brackets before it
opens them. -/
structure IsCut (t : Text) (parts : List Text) : Prop where
  /-- Only the commas between the parts are left out. -/
  joined : Text.join [','] parts = t
  /-- Every part but the last has as many opening as closing brackets. -/
  even : ∀ part ∈ parts.dropLast, part.count '[' = part.count ']'
  /-- No part could be cut further. -/
  uncut : ∀ part ∈ parts, IsUncut part

namespace IsCut

variable {t part rest : Text} {parts : List Text}

theorem single (huncut : IsUncut part) : IsCut part [part] where
  joined := rfl
  even _ h := absurd h List.not_mem_nil
  uncut := List.forall_mem_singleton.mpr huncut

theorem cons (huncut : IsUncut part) (heven : part.count '[' = part.count ']') (hne : parts ≠ [])
    (hrest : IsCut rest parts) : IsCut (part ++ ',' :: rest) (part :: parts) where
  joined := by
    obtain ⟨next, more, rfl⟩ := List.exists_cons_of_ne_nil hne
    rw [join_cons_cons, hrest.joined]
  even := by
    rw [List.dropLast_cons_of_ne_nil hne]
    exact List.forall_mem_cons.mpr ⟨heven, hrest.even⟩
  uncut := List.forall_mem_cons.mpr ⟨huncut, hrest.uncut⟩

/-- What is in front of the first comma of a cut, and what is behind it. -/
theorem cons_cons {next : Text} (hcut : IsCut t (part :: next :: parts)) :
    part.count '[' = part.count ']' ∧
      ∃ rest, t = part ++ ',' :: rest ∧ IsCut rest (next :: parts) := by
  obtain ⟨heven, hevens⟩ := List.forall_mem_cons.mp hcut.even
  refine ⟨heven, Text.join [','] (next :: parts), ?_, rfl, hevens, ?_⟩
  · rw [← hcut.joined, join_cons_cons]
  · exact (List.forall_mem_cons.mp hcut.uncut).2

/-- The parts of a cut are those that reading the text from the left finds. -/
theorem splitTopLevel_eq (hcut : IsCut t parts) (hne : parts ≠ []) : splitTopLevel t = parts := by
  induction parts generalizing t with
  | nil => exact absurd rfl hne
  | cons part more ih =>
      have huncut : IsUncut part := hcut.uncut part List.mem_cons_self
      cases more with
      | nil =>
          obtain rfl : part = t := hcut.joined
          exact huncut.splitTopLevel_eq
      | cons next more =>
          obtain ⟨heven, rest, rfl, hrest⟩ := hcut.cons_cons
          have hmore := ih hrest (List.cons_ne_nil next more)
          rw [(huncut.isCarried heven).splitTopLevel_comma, hmore]

end IsCut

/-- Reading on behind a text that goes into one part: the number of brackets open there is that of
the part which is being read, so that the parts found are those of a cut. -/
theorem isCut_splitFrom {front : Text} (hfront : IsUncut front) (rest : Text) :
    IsCut (front ++ rest) (prepend front (splitFrom (openBrackets front) rest)) := by
  induction rest generalizing front with
  | nil =>
      rw [splitFrom, prepend, List.append_nil]
      exact .single hfront
  | cons c rest ih =>
      by_cases hcomma : c = ',' ∧ openBrackets front = 0
      · obtain ⟨rfl, hzero⟩ := hcomma
        have hrest : IsCut rest (splitFrom 0 rest) := by
          have hrest := ih isUncut_nil
          rwa [openBrackets_nil, ← IsCarried.nil 0 rest] at hrest
        rw [hzero, splitFrom_comma, prepend, List.append_nil]
        exact hrest.cons hfront (openBrackets_eq_zero.mp hzero) (splitFrom_ne_nil 0 rest)
      · -- the code point joins the part that is being read
        have hkeep := not_and_or.mp hcomma
        have hrest := ih (isUncut_concat.mpr ⟨hfront, hkeep⟩)
        rwa [openBrackets_concat, prepend_append, ← splitFrom_cons hkeep, List.append_assoc,
          List.singleton_append] at hrest

/-- The parts of a text are its only cut. There is always a last part; the empty list, which joins to
the empty text, has none. -/
theorem splitTopLevel_eq_iff (t : Text) (parts : List Text) :
    splitTopLevel t = parts ↔ parts ≠ [] ∧ IsCut t parts := by
  constructor
  · rintro rfl
    refine ⟨splitFrom_ne_nil 0 t, ?_⟩
    have hcut := isCut_splitFrom isUncut_nil t
    rwa [openBrackets_nil, ← IsCarried.nil 0 t] at hcut
  · rintro ⟨hne, hcut⟩
    exact hcut.splitTopLevel_eq hne

example : splitTopLevel "1],[2,3".toList = ["1],[2".toList, "3".toList] := by decide

end StackScript.ArrayText
