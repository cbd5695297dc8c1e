import Mathlib.Data.List.Basic
import StackScript.Proofs.Value.Kinds
import StackScript.Value.Coerce

/-! # String texts

A text is a string if it is some content without double quotes between two of them. A line feed
behind the second one would not keep the text from being classified as a string, but then the
content would not be found.
-/

namespace StackScript

namespace Text

/-- The text is classified as a string, ends in its quote, and has the content between its quotes. -/
structure IsStringOf (content t : Text) : Prop where
  kind_eq : kind t = .string
  getLast?_ne : t.getLast? ≠ some '\n'
  inner_eq : inner t = content

variable {content t : Text}

theorem inner_quote (content : Text) : inner (quote content) = content := by
  rw [inner, quote, List.cons_append, List.tail_cons, List.dropLast_concat]

theorem getLast?_quote (content : Text) : (quote content).getLast? = some '"' :=
  List.getLast?_concat

theorem isStringLiteral_quote (hcontent : '"' ∉ content) : isStringLiteral (quote content) = true := by
  have hlast : (quote content).getLast? ≠ some '\n' := by
    rw [getLast?_quote]
    decide
  rw [isStringLiteral, dropFinalLineFeed_of_getLast?_ne hlast, quote, List.cons_append]
  simp only [List.getLast?_concat, List.dropLast_concat, beq_self_eq_true, Bool.true_and,
    List.all_eq_true, bne_iff_ne]
  rintro c hc rfl
  exact hcontent hc

/-- A string text is a content without double quotes, between two of them. -/
theorem isStringOf_iff : IsStringOf content t ↔ t = quote content ∧ '"' ∉ content := by
  constructor
  · rintro ⟨hkind, hlast, rfl⟩
    have hform : isStringLiteral t = true := (hasForm_iff (k := .string) (by decide)).mpr hkind
    rw [isStringLiteral, dropFinalLineFeed_of_getLast?_ne hlast] at hform
    split at hform
    next rest =>
      rw [Bool.and_eq_true, beq_iff_eq, List.all_eq_true] at hform
      obtain ⟨hquote, hcontent⟩ := hform
      refine ⟨?_, fun hmem => ?_⟩
      · rw [inner, List.tail_cons, quote, List.cons_append,
          List.dropLast_append_getLast? '"' hquote]
      · simpa using hcontent _ hmem
    next => cases hform
  · rintro ⟨rfl, hcontent⟩
    refine ⟨kind_of_hasForm (k := .string) (isStringLiteral_quote hcontent) (by decide), ?_,
      inner_quote content⟩
    rw [getLast?_quote]
    decide

namespace IsStringOf

theorem quote_not_mem (h : IsStringOf content t) : '"' ∉ content := (isStringOf_iff.mp h).2

theorem content_eq (h : IsStringOf content t) : Text.content t = content := by
  obtain ⟨rfl, -⟩ := isStringOf_iff.mp h
  have hdelimited : isDelimited '"' '"' (quote content) = true := by
    rw [isDelimited, getLast?_quote]
    rfl
  have hlength : 2 ≤ (quote content).length := by simp [quote]
  rw [Text.content, hdelimited, decide_eq_true hlength, if_pos (by decide), inner_quote]

theorem isA_eq_false (h : IsStringOf content t) {k : Kind} (hk : k ≠ .string) :
    (Value.text t).isA k = false := by
  rw [Value.isA_eq, beq_eq_false_iff_ne]
  exact fun hkind => hk (hkind.symm.trans h.kind_eq)

end IsStringOf

/-- Without a quote there is no string. -/
theorem kind_ne_string (hquote : '"' ∉ t) : kind t ≠ .string := by
  intro hkind
  have hform : isStringLiteral t = true := (hasForm_iff (k := .string) (by decide)).mpr hkind
  unfold isStringLiteral at hform
  split at hform
  next rest hdrop =>
    obtain ⟨rest', rfl⟩ := eq_cons_of_dropFinalLineFeed hdrop
    exact hquote List.mem_cons_self
  next => cases hform

end Text

end StackScript
