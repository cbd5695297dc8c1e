import StackScript.Proofs.Session.Words
import StackScript.Proofs.Token.Rejoin

/-! # Failing words are as if absent

A word that fails leaves the stack untouched, and the words that succeed do the same without
it: a line and the line of its successful words end with the same stack.
-/

namespace StackScript.Session

open Evaluation

/-- The results that report no failure. -/
def succeeded (steps : List Step) : List Step := steps.filter fun step => step.fault.isNone

theorem step_stack_of_fault {session after : Session} {token : Text} {result : Step}
    (hstep : session.step token = .ok (after, result)) (hfault : result.fault ≠ none) :
    after.stack = session.stack := by
  obtain ⟨o, hattempt, rfl, rfl⟩ := step_eq_ok.mp hstep
  obtain ⟨fault, hfault⟩ := Option.ne_none_iff_exists'.mp hfault
  rw [advance_stack, absorb_stack]
  exact attemptWord_stack_of_fault hattempt hfault

/-- Running only the words that succeeded, from a session with the same stack, gives their
results again and the same stack. -/
theorem runWords_succeeded {session other after : Session} {tokens : List Text}
    {steps : List Step} (hrun : session.runWords tokens = (after, .ok steps))
    (hlimit : other.limit = session.limit) (hline : other.lineCount = session.lineCount)
    (hstack : other.stack = session.stack) :
    ∃ again, other.runWords ((succeeded steps).map Step.token) = (again, .ok (succeeded steps)) ∧
      again.stack = after.stack := by
  -- the sessions may differ in their journals, which no word reads
  induction tokens generalizing session other steps with
  | nil =>
      cases hrun
      exact ⟨other, rfl, hstack⟩
  | cons token rest ih =>
      obtain ⟨middle, result, others, hstep, hothers, rfl⟩ := runWords_cons_eq_ok.mp hrun
      obtain ⟨o, hattempt, rfl, rfl⟩ := step_eq_ok.mp hstep
      cases hfault : o.fault with
      | none =>
          have hsame : other.step token = .ok (other.advance (absorb session.lineCount token o),
              ⟨token, session.lineCount, o.fault⟩) := by
            rw [step_eq_ok]
            exact ⟨o, by rw [hlimit, hline, hstack, hattempt], by rw [hline], by rw [hline]⟩
          obtain ⟨again, hagain, hend⟩ :=
            @ih _ (other.advance (absorb session.lineCount token o)) _ hothers hlimit hline rfl
          refine ⟨again, ?_, hend⟩
          have hkept : succeeded (⟨token, session.lineCount, o.fault⟩ :: others) =
              ⟨token, session.lineCount, o.fault⟩ :: succeeded others := by
            simp [succeeded, hfault]
          rw [← hfault, hkept, List.map_cons]
          exact runWords_cons_eq_ok.mpr ⟨_, _, _, hsame, hagain, rfl⟩
      | some fault =>
          have hdropped : succeeded (⟨token, session.lineCount, some fault⟩ :: others) =
              succeeded others := by
            simp [succeeded]
          rw [hdropped]
          -- the word put the stack back, so the other session goes on without it
          apply ih hothers hlimit hline
          rw [advance_stack, absorb_stack, attemptWord_stack_of_fault hattempt hfault, hstack]

/-- A value behind which evaluation goes on, at any depth, is computed and pushed, or it is a
text whose guarded run succeeded or failed without a trace on the stack. -/
theorem runNested_failSoft {number depth : Nat} {v : Value} {s : Stack}
    (hreturns : (runNested number depth v s).fault = none) :
    ((∀ t, v ≠ .text t) ∧ runNested number depth v s = { stack := v :: s }) ∨
      ∃ t below, v = .text t ∧ depth = below + 4 ∧
        (attempt below (runNested number below) t s = .ok (runNested number depth v s) ∨
        ∃ events fault,
          attempt below (runNested number below) t s = .ok ⟨s, events, some fault⟩ ∧
          runNested number depth v s =
            ⟨s, events ++ [.skipped ⟨t, number, some fault⟩], none⟩) := by
  match depth, v with
  | below + 4, .text t => exact Or.inr ⟨t, below, rfl, rfl, runNested_returns hreturns⟩
  | _ + 4, .bool _ | _ + 4, .null | _ + 4, .number _ | _ + 4, .list _ | _ + 4, .object _ =>
      exact Or.inl ⟨nofun, rfl⟩
  -- with fewer than four calls left nothing nested returns
  | 0, _ | 1, _ | 2, _ | 3, _ => simp [runNested] at hreturns

/-- A line that comes to its end treats its failing words as if they were absent. Each of them
left the stack as it was before it. The line of the other words, joined by blanks and run from
the same session, gives one result for each, all without failure, and the same stack. Nested
at any depth, a value behind which evaluation goes on either is computed and pushed, or its
guarded run succeeded and nothing was recorded for it, or the stack is as it was before it and
its own failure was recorded last. -/
theorem runLine_failSoft (session : Session) (line : Text) (after : Session)
    (steps : List Step) (hreturns : session.runLine line = (after, .ok steps)) :
    (∀ done token rest, Token.texts line = done ++ token :: rest →
      ∃ before middle first result second,
        (session.beginLine line).runWords done = (before, .ok first) ∧
        before.step token = .ok (middle, result) ∧
        middle.runWords rest = (after, .ok second) ∧ steps = first ++ result :: second ∧
        (result.fault ≠ none → middle.stack = before.stack)) ∧
    (∃ again,
      session.runLine (Text.join [' '] ((succeeded steps).map Step.token)) =
        (again, .ok (succeeded steps)) ∧
      again.stack = after.stack) ∧
    ∀ number depth v s, (runNested number depth v s).fault = none →
      ((∀ t, v ≠ .text t) ∧ runNested number depth v s = { stack := v :: s }) ∨
      ∃ t below, v = .text t ∧ depth = below + 4 ∧
        (attempt below (runNested number below) t s = .ok (runNested number depth v s) ∨
        ∃ events fault,
          attempt below (runNested number below) t s = .ok ⟨s, events, some fault⟩ ∧
          runNested number depth v s =
            ⟨s, events ++ [.skipped ⟨t, number, some fault⟩], none⟩) := by
  rw [runLine_eq] at hreturns
  refine ⟨?_, ?_, ?_⟩
  · intro done token rest hsplit
    rw [hsplit] at hreturns
    obtain ⟨before, first, others, hfirst, hothers, rfl⟩ := runWords_append_eq_ok hreturns
    obtain ⟨middle, result, second, hstep, hsecond, rfl⟩ := runWords_cons_eq_ok.mp hothers
    exact ⟨before, middle, first, result, second, hfirst, hstep, hsecond, rfl,
      step_stack_of_fault hstep⟩
  · have hsublist : ((succeeded steps).map Step.token).Sublist (Token.texts line) := by
      rw [← runWords_tokens hreturns]
      exact List.filter_sublist.map Step.token
    -- tokens of one line, joined by blanks, are cut where they were joined
    have hread := ((Token.rejoinable_texts line).sublist hsublist).texts_join
    rw [runLine_eq, hread]
    exact runWords_succeeded hreturns rfl rfl rfl
  · intro number depth v s hnested
    exact runNested_failSoft hnested

theorem runLine_failSoft_underflow :
    ∃ again, ({} : Session).runLine "1 2 +".toList =
        (again, .ok [⟨['1'], 1, none⟩, ⟨['2'], 1, none⟩, ⟨['+'], 1, none⟩]) ∧
      again.stack = (({} : Session).runLine "1 + 2 ROT bogus +".toList).1.stack := by
  have hreturns : ({} : Session).runLine "1 + 2 ROT bogus +".toList =
      ((({} : Session).runLine "1 + 2 ROT bogus +".toList).1,
        .ok [⟨['1'], 1, none⟩, ⟨['+'], 1, some (.underflow (.arithmetic .add) 2 1)⟩,
          ⟨['2'], 1, none⟩, ⟨"ROT".toList, 1, some (.underflow .rot 3 2)⟩,
          ⟨"bogus".toList, 1, some (.unrecognized "bogus".toList)⟩, ⟨['+'], 1, none⟩]) :=
    Prod.ext rfl (by decide +kernel)
  exact (runLine_failSoft _ _ _ _ hreturns).2.1

end StackScript.Session
