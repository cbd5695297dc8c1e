import StackScript.Lambda
import StackScript.Proofs.Numeral.Integer
import StackScript.Proofs.Text.Trim
import StackScript.Proofs.Text.Unbroken
import StackScript.Proofs.Token.Rejoin

/-! # Reading lambdas

What stands between the braces of a lambda is cut at its first bar. The part before the bar,
without the blanks around it, is the parameter count; the part behind it holds the words of the
body. A text in braces is a lambda if there is a bar and a count.
-/

namespace StackScript

/-! ## Texts around a mark -/

namespace Text

theorem cutAt_append_cons {mark : Char} {front : Text} (hfront : mark ∉ front) (back : Text) :
    cutAt mark (front ++ mark :: back) = some (front, back) := by
  have hall : ∀ c ∈ front, (c != mark) = true := fun c hc =>
    bne_iff_ne.mpr fun h => hfront (h ▸ hc)
  rw [cutAt, List.dropWhile_append_of_pos hall, List.takeWhile_append_of_pos hall]
  simp

theorem cutAt_of_not_mem {mark : Char} {t : Text} (hnone : mark ∉ t) : cutAt mark t = none := by
  have hall : t.dropWhile (· != mark) = [] :=
    List.dropWhile_eq_nil_iff.mpr fun c hc => bne_iff_ne.mpr fun h => hnone (h ▸ hc)
  rw [cutAt, hall]

end Text

theorem Token.texts_rdropWhile (t : Text) : texts (t.rdropWhile Text.isBlank) = texts t := by
  have hblanks : ∀ c ∈ t.rtakeWhile Text.isBlank, Text.isBlank c :=
    fun c hc => List.mem_rtakeWhile_imp hc
  rw [← texts_append_blanks hblanks, List.rdropWhile_append_rtakeWhile]

namespace Lambda

open Numeral

variable {text front back : Text}

/-! ## What a text in braces is read as -/

theorem parts?_of_inner (hinner : Text.inner text = front ++ '|' :: back) (hfront : '|' ∉ front) :
    parts? text = some (front.dropWhile Text.isBlank, back.rdropWhile Text.isBlank) := by
  have hbar : '|' ∉ front.dropWhile Text.isBlank := fun hmem =>
    hfront ((List.dropWhile_suffix _).subset hmem)
  rw [parts?, hinner, Text.trim_append_cons (by decide), Text.cutAt_append_cons hbar]

theorem read_of_not_mem (hbraces : Text.isDelimited '\x7b' '\x7d' text = true)
    (hnone : '|' ∉ Text.inner text) : Lambda.read text = .error (.lambdaWithoutBar text) := by
  have hparts : parts? text = none :=
    Text.cutAt_of_not_mem fun hmem => hnone ((Text.trim_sublist _).subset hmem)
  rw [Lambda.read, hbraces, hparts]
  rfl

theorem read_of_inner (hbraces : Text.isDelimited '\x7b' '\x7d' text = true)
    (hinner : Text.inner text = front ++ '|' :: back) (hfront : '|' ∉ front) :
    Lambda.read text =
      if ¬ IsDigits (Text.trim front) then .error (.badParameterCount (Text.trim front))
      else if digitLimit < (Text.trim front).length then
        .error (.numeralTooLong (Text.trim front).length)
      else .ok ⟨text, natValue (Text.trim front), Token.texts back⟩ := by
  have hdigits : ((Text.trim front).isEmpty || !(Text.trim front).all Char.isDigit) = true ↔
      ¬ IsDigits (Text.trim front) := by
    rw [← Bool.not_eq_false, not_iff_not, Bool.or_eq_false_iff, Bool.not_eq_false',
      List.isEmpty_eq_false_iff, List.all_eq_true]
    exact ⟨fun h => ⟨h.1, h.2⟩, fun h => ⟨h.ne_nil, h.isDigit⟩⟩
  rw [Lambda.read, hbraces, parts?_of_inner hinner hfront]
  simp only [Bool.not_true, Bool.false_eq_true, if_false, Text.trim_dropWhile_isBlank,
    Token.texts_rdropWhile, hdigits]

/-- A text in braces is a lambda exactly if its first bar stands behind a count. -/
theorem read_eq_ok {lambda : Lambda} (hbraces : Text.isDelimited '\x7b' '\x7d' text = true) :
    Lambda.read text = .ok lambda ↔
      ∃ front back, Text.inner text = front ++ '|' :: back ∧ '|' ∉ front ∧
        IsConvertible (Text.trim front) ∧
        lambda = ⟨text, natValue (Text.trim front), Token.texts back⟩ := by
  constructor
  · intro hread
    by_cases hbar : '|' ∈ Text.inner text
    · obtain ⟨front, back, hinner, hfront⟩ := List.eq_append_cons_of_mem hbar
      rw [read_of_inner hbraces hinner hfront] at hread
      split at hread
      next => cases hread
      next hdigits =>
        split at hread
        next => cases hread
        next hshort =>
          cases hread
          exact ⟨front, back, hinner, hfront, ⟨not_not.mp hdigits, Nat.not_lt.mp hshort⟩, rfl⟩
    · rw [read_of_not_mem hbraces hbar] at hread
      cases hread
  · rintro ⟨front, back, hinner, hfront, hcount, rfl⟩
    rw [read_of_inner hbraces hinner hfront, if_neg (not_not.mpr hcount.toIsDigits),
      if_neg (Nat.not_lt.mpr hcount.length_le)]

/-- Every other text in braces is no lambda by its syntax, if its count is not too long. -/
theorem exists_lambdaSyntax (hbraces : Text.isDelimited '\x7b' '\x7d' text = true)
    (hcount : ∀ front back, Text.inner text = front ++ '|' :: back → '|' ∉ front →
      ¬ IsDigits (Text.trim front)) :
    ∃ fault, Lambda.read text = .error fault ∧ fault.category = .lambdaSyntax := by
  by_cases hbar : '|' ∈ Text.inner text
  · obtain ⟨front, back, hinner, hfront⟩ := List.eq_append_cons_of_mem hbar
    refine ⟨.badParameterCount (Text.trim front), ?_, rfl⟩
    rw [read_of_inner hbraces hinner hfront, if_pos (hcount front back hinner hfront)]
  · exact ⟨.lambdaWithoutBar text, read_of_not_mem hbraces hbar, rfl⟩

end Lambda

end StackScript
