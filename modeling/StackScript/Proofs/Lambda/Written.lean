import StackScript.Evaluation
import StackScript.Proofs.Lambda.Reading
import StackScript.Proofs.Value.Kinds

/-! # Written lambdas

A parameter count and a body make the text of a lambda. Read, the text gives the number that
the count stands for and the words of the body. Whatever text a lambda was read from, the one
that is written from its count and its words is read as the same count and words.
-/

namespace StackScript

namespace Numeral.IsDigits

variable {t : Text}

theorem not_mem (ht : IsDigits t) {c : Char} (hc : c.isDigit = false) : c ∉ t := fun hmem => by
  have hdigit := ht.isDigit c hmem
  rw [hc] at hdigit
  cases hdigit

theorem trim_eq_self (ht : IsDigits t) : Text.trim t = t :=
  Text.trim_eq_self
    (fun c hc => Text.not_isBlank_of_isDigit (ht.isDigit c (List.mem_of_mem_head? hc)))
    (fun c hc => Text.not_isBlank_of_isDigit (ht.isDigit c (List.mem_of_getLast? hc)))

end Numeral.IsDigits

namespace Lambda

open Numeral

/-- The lambda with this parameter count and this body. -/
def written (count body : Text) : Text := '\x7b' :: (count ++ " | ".toList ++ body) ++ ['\x7d']

variable {count body : Text}

/-! ## Reading the text -/

@[simp]
theorem isDelimited_written (count body : Text) :
    Text.isDelimited '\x7b' '\x7d' (written count body) = true := by
  rw [written, Text.isDelimited, List.getLast?_concat]
  rfl

theorem inner_written (count body : Text) :
    Text.inner (written count body) = count ++ " | ".toList ++ body := by
  rw [written, Text.inner, List.cons_append, List.tail_cons, List.dropLast_concat]

/-- Behind a numeral that is not too long any body makes a lambda. -/
theorem read_written (hcount : IsConvertible count) (body : Text) :
    Lambda.read (written count body) =
      .ok ⟨written count body, natValue count, Token.texts body⟩ := by
  have hinner : Text.inner (written count body) = (count ++ [' ']) ++ '|' :: ' ' :: body := by
    simp [inner_written]
  have hbar : '|' ∉ count ++ [' '] := by simpa using hcount.not_mem rfl
  have hheader : Text.trim (count ++ [' ']) = count := by
    rw [Text.trim_concat_blank (by decide), hcount.trim_eq_self]
  refine (read_eq_ok (isDelimited_written count body)).mpr
    ⟨count ++ [' '], ' ' :: body, hinner, hbar, hheader.symm ▸ hcount, ?_⟩
  rw [hheader, Token.texts_cons_blank body (by decide)]

/-! ## Parts and text -/

theorem read_written_texts {n : Nat} (hshort : (ofNat n).length ≤ digitLimit) (source : Text) :
    let text := written (ofNat n) (Text.join [' '] (Token.texts source))
    Lambda.read text = .ok ⟨text, n, Token.texts source⟩ := by
  intro text
  have hread := read_written ⟨isDigits_ofNat n, hshort⟩ (Text.join [' '] (Token.texts source))
  rwa [natValue_ofNat, (Token.rejoinable_texts source).texts_join] at hread

/-- A count and the words of any source make a text that is read as a lambda of that count and
these words. A text in braces is a lambda exactly if it has a bar, and before the first one a
count that is not too long; it then has that count and the words behind the bar. Any other text
in braces is refused by its syntax, if its count is not too long. The count and the words that
a lambda was read as make a text that is read as the same count and words. -/
theorem read_written_iff :
    (∀ (n : Nat) (source : Text), (ofNat n).length ≤ digitLimit →
      let text := written (ofNat n) (Text.join [' '] (Token.texts source))
      Lambda.read text = .ok ⟨text, n, Token.texts source⟩) ∧
    ∀ text, Text.isDelimited '\x7b' '\x7d' text = true →
      (∀ lambda, Lambda.read text = .ok lambda ↔
        ∃ front back, Text.inner text = front ++ '|' :: back ∧ '|' ∉ front ∧
          IsConvertible (Text.trim front) ∧
          lambda = ⟨text, natValue (Text.trim front), Token.texts back⟩) ∧
      ((∀ front back, Text.inner text = front ++ '|' :: back → '|' ∉ front →
          ¬ IsDigits (Text.trim front)) →
        ∃ fault, Lambda.read text = .error fault ∧ fault.category = .lambdaSyntax) ∧
      ∀ lambda, Lambda.read text = .ok lambda →
        let again := written (ofNat lambda.parameters) (Text.join [' '] lambda.body)
        Lambda.read again = .ok ⟨again, lambda.parameters, lambda.body⟩ := by
  refine ⟨fun n source hshort => read_written_texts hshort source, fun text hbraces =>
    ⟨fun lambda => read_eq_ok hbraces, exists_lambdaSyntax hbraces, fun lambda hread => ?_⟩⟩
  obtain ⟨front, back, -, -, hcount, rfl⟩ := (read_eq_ok hbraces).mp hread
  exact read_written_texts hcount.ofNat_natValue.length_le back

/-- Zeros before the count, blanks around it and brackets without partners are lost. A further
bar and an open quote belong to the body. -/
theorem read_written_iff_blanks :
    let text := "\x7b 007 |x0] | \x7b1|\x7d  \"a \x7d".toList
    let again := "\x7b7 | x0 | \x7b1|\x7d \"a\x7d".toList
    let words := ["x0".toList, "|".toList, "\x7b1|\x7d".toList, "\"a".toList]
    Lambda.read text = .ok ⟨text, 7, words⟩ ∧ Lambda.read again = .ok ⟨again, 7, words⟩ := by
  intro text again words
  have hbraces : Text.isDelimited '\x7b' '\x7d' text = true := by decide
  have hread : Lambda.read text = .ok ⟨text, 7, words⟩ :=
    ((read_written_iff.2 text hbraces).1 _).mpr
      ⟨" 007 ".toList, "x0] | \x7b1|\x7d  \"a ".toList, by decide, by decide, by decide,
        by decide +kernel⟩
  have hagain : again = written (ofNat 7) (Text.join [' '] words) := by decide
  refine ⟨hread, ?_⟩
  rw [hagain]
  exact (read_written_iff.2 text hbraces).2.2 _ hread

/-! ## The text as a word -/

theorem kind_written (count body : Text) : Text.kind (written count body) = .lambda :=
  Text.kind_of_hasForm (isDelimited_written count body) (by decide)

theorem head?_written (count body : Text) :
    (written count body).head? ≠ some Evaluation.quoteMark := by
  simp [written, Evaluation.quoteMark]

/-- Without braces in the body the text is a single word. -/
theorem texts_written (hcount : IsDigits count) (hopen : '\x7b' ∉ body) (hclose : '\x7d' ∉ body) :
    Token.texts (written count body) = [written count body] := by
  have hinner {c : Char} (hc : c ∉ " | ".toList) (hdigit : c.isDigit = false) (hbody : c ∉ body) :
      c ∉ count ++ " | ".toList ++ body := by
    simp only [List.mem_append, not_or]
    exact ⟨⟨hcount.not_mem hdigit, hc⟩, hbody⟩
  have hlength := Token.closeLength_of_not_mem (by decide) (hinner (by decide) (by decide) hopen)
    (hinner (by decide) (by decide) hclose)
  exact Token.texts_of_isWhole
    ⟨'\x7b', count ++ " | ".toList ++ body ++ ['\x7d'], .block, rfl, by decide,
      Token.lexeme?_of_family rfl hlength⟩

end Lambda

end StackScript
