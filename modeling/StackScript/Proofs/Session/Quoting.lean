import StackScript.Proofs.Session.Inlining
import StackScript.Proofs.Token.Reading

/-! # Quoted words

A quotation mark keeps a word from being run, and `EVAL` runs it after all. It then runs nested
in another word, under a guard of its own that does what the guard of a word at the top of a
line does: the failures of the word are absorbed there, and `EVAL` itself succeeds.
-/

namespace StackScript

namespace Evaluation

/-- The line that quotes a word and runs it with `EVAL`. -/
def evalQuoted (word : Text) : Text := quoteMark :: word ++ ' ' :: evalWord

theorem texts_evalQuoted {word : Text}
    (hword : ∀ c ∈ word, ¬ Text.isBlank c ∧ ¬ Token.isBracket c) :
    Token.texts (evalQuoted word) = [quoteMark :: word, evalWord] := by
  have hwhole : Token.IsWhole (quoteMark :: word) := by
    refine Token.isWhole_of_word (List.cons_ne_nil _ _) (by simp [quoteMark]) ?_
    exact List.forall_mem_cons.mpr
      ⟨by decide, fun c hc => Token.isWordChar_eq_true_iff.mpr (hword c hc)⟩
  -- a mark opens the word, so it cannot take a later quote for its end
  have hclosed : ¬ Token.LeavesQuoteOpen (quoteMark :: word) := fun hopen =>
    absurd (Option.some.inj hopen.1) (by decide)
  have hblank : Text.isBlank ' ' := by decide
  have heval : Token.texts (' ' :: evalWord) = [evalWord] := by decide +kernel
  rw [evalQuoted, Token.texts_append_of_isWhole hwhole (by simpa using hblank)
    fun hopen => absurd hopen hclosed, heval]

theorem attemptWord_quoted (limit line : Nat) (word : Text) (s : Stack) :
    attemptWord limit line (quoteMark :: word) s = .ok { stack := .text word :: s } := by
  rw [attemptWord_of_isProper (Or.inl rfl), attempt_of_not_executable (by simp [isExecutable])]
  rfl

/-- `EVAL` does what the text that it pops does at the top of a line, its failure absorbed,
unless the text is cut short. -/
theorem attemptWord_eval {limit line : Nat} {word : Text} {s : Stack} {o : Outcome}
    (hproper : IsProper word) (hword : attemptWord limit line word s = .ok o) :
    ∃ tried, attemptWord limit line evalWord (.text word :: s) = .ok tried ∧
      (tried.fault = some .tooDeep ∨ tried = absorb line word o) := by
  have hexecutable : isExecutable evalWord = true := by decide
  have hreach : reach limit evalWord (.text word :: s) = .ok (s.length + 1) := rfl
  have htried := attemptWord_of_reach line hexecutable hreach
  rw [runText_of_eval hexecutable (by decide) rfl] at htried
  obtain ⟨tried, htried, hfault, hdone⟩ := htried
  refine ⟨tried, htried, (runNested_eq_absorb hproper hword).imp hfault.trans fun hsame => ?_⟩
  have hnone : (runNested line limit (.text word) s).fault = none := by
    rw [hsame, absorb_fault]
  exact (hdone hnone).trans hsame

end Evaluation

namespace Session

open Evaluation

/-- A line of two words is two steps. -/
theorem runLine_two {session middle after : Session} {line first second : Text}
    {result result' : Step} (htexts : Token.texts line = [first, second])
    (hfirst : (session.beginLine line).step first = .ok (middle, result))
    (hsecond : middle.step second = .ok (after, result')) :
    session.runLine line = (after, .ok [result, result']) := by
  rw [runLine_eq, htexts]
  refine runWords_cons_eq_ok.mpr ⟨middle, result, [result'], hfirst, ?_, rfl⟩
  exact runWords_cons_eq_ok.mpr ⟨after, result', [], hsecond, rfl, rfl⟩

/-- Quoting a word and running it with `EVAL` does what the word does by itself, provided that it
is a single token without blanks and brackets, that it does not fail at the top of a line for
being neither an operator nor a value, that it comes to its end there and that it is not cut
short below `EVAL`: both words of the line succeed, it leaves the stack that the word leaves, and
skips what the word skips. -/
theorem runLine_evalQuoted (session : Session) (word : Text) (after : Session)
    (steps : List Step) (hchars : ∀ c ∈ word, ¬ Text.isBlank c ∧ ¬ Token.isBracket c)
    (hproper : word.head? = some quoteMark ∨ Text.kind word ≠ .literal)
    (htexts : Token.texts word = [word])
    (hreturns : session.runLine word = (after, .ok steps))
    (hlimit : ∀ step ∈ session.newlySkipped (session.runLine (evalQuoted word)).1,
      step.fault ≠ some .tooDeep) :
    ∃ quoted,
      session.runLine (evalQuoted word) =
        (quoted, .ok [⟨quoteMark :: word, session.lineCount + 1, none⟩,
          ⟨evalWord, session.lineCount + 1, none⟩]) ∧
      quoted.stack = after.stack ∧
      session.newlySkipped quoted = session.newlySkipped after := by
  rw [runLine_eq, htexts] at hreturns
  obtain ⟨_, result, _, hstep, hnil, rfl⟩ := runWords_cons_eq_ok.mp hreturns
  cases hnil
  obtain ⟨o, hattempt, rfl, rfl⟩ := step_eq_ok.mp hstep
  have hword : attemptWord session.limit (session.lineCount + 1) word session.stack = .ok o :=
    hattempt
  set line := session.lineCount + 1
  set pushed := (session.beginLine (evalQuoted word)).advance
    { stack := .text word :: session.stack } with hpushed
  obtain ⟨tried, htried, hcases⟩ := attemptWord_eval hproper hword
  have hfirst : (session.beginLine (evalQuoted word)).step (quoteMark :: word) =
      .ok (pushed, ⟨quoteMark :: word, line, none⟩) :=
    step_eq_ok.mpr ⟨_, attemptWord_quoted _ _ _ _, rfl, rfl⟩
  have hsecond : pushed.step evalWord =
      .ok (pushed.advance (absorb line evalWord tried), ⟨evalWord, line, tried.fault⟩) :=
    step_eq_ok.mpr ⟨tried, htried, rfl, rfl⟩
  have hquoted := runLine_two (texts_evalQuoted hchars) hfirst hsecond
  have hskipped : session.newlySkipped (pushed.advance (absorb line evalWord tried)) =
      (absorb line evalWord tried).events.filterMap Event.step? := by
    refine newlySkipped_of_append ?_
    rw [skipped_advance, hpushed, skipped_advance, skipped_beginLine, List.filterMap_nil,
      List.append_nil]
  rw [hquoted] at hlimit ⊢
  obtain hdeep | rfl := hcases
  · -- `EVAL` would be skipped for its depth, which `hlimit` excludes
    refine absurd rfl (hlimit ⟨evalWord, line, some .tooDeep⟩ ?_)
    rw [hskipped, absorb, hdeep]
    simp [Event.step?]
  · have hnone := absorb_fault line word o
    have hevents : absorb line evalWord (absorb line word o) = absorb line word o := by
      rw [absorb, hnone]
    refine ⟨_, by rw [hnone], by rw [hevents]; rfl, ?_⟩
    rw [hskipped, hevents]
    refine (newlySkipped_of_append ?_).symm
    rw [skipped_advance, skipped_beginLine]
    rfl

theorem runLine_evalQuoted_nested :
    let session : Session := { stack := [.text ['+'], .bool true] }
    ∃ quoted,
      session.runLine "'EVAL EVAL".toList =
        (quoted, .ok [⟨"'EVAL".toList, 1, none⟩, ⟨"EVAL".toList, 1, none⟩]) ∧
      quoted.stack.length = (session.runLine evalWord).1.stack.length ∧
      session.newlySkipped quoted = [⟨['+'], 1, some (.underflow (.arithmetic .add) 2 1)⟩] := by
  intro session
  have hreturns : session.runLine evalWord =
      ((session.runLine evalWord).1, .ok [⟨"EVAL".toList, 1, none⟩]) :=
    Prod.ext rfl (by decide +kernel)
  have hskipped : session.newlySkipped (session.runLine evalWord).1 =
      [⟨['+'], 1, some (.underflow (.arithmetic .add) 2 1)⟩] := by decide +kernel
  obtain ⟨quoted, hquoted, hstack, hsame⟩ := runLine_evalQuoted session evalWord _ _
    (by simp [evalWord, Text.isBlank, Token.isBracket]) (by decide) (by decide +kernel) hreturns
    (by decide +kernel)
  exact ⟨quoted, hquoted, congrArg List.length hstack, hsame.trans hskipped⟩

end Session

end StackScript
