import StackScript.Proofs.Evaluation.Trace
import StackScript.Proofs.Session.Limit

/-! # The record of a session

Each word of a line puts on record the failures that ended within it, and then its own if it
failed itself. Line by line the record only grows at its end, so that the steps on it stand in
the order in which they failed, each with the number of its line.
-/

namespace StackScript

/-- The step itself if it failed. -/
def Step.failure (step : Step) : List Step := if step.fault.isSome then [step] else []

theorem Step.mem_failure {step failed : Step} :
    failed ∈ step.failure ↔ failed = step ∧ step.fault ≠ none := by
  unfold failure
  cases step.fault <;> simp

namespace Session

open Evaluation

variable {session after : Session} {token : Text} {result : Step} {tokens : List Text}
  {steps : List Step}

/-! ## The words of a line -/

/-- The failures that end with runs within a word of a line, in the order in which these runs
end. -/
def nestedFailures (session : Session) (token : Text) : List Step :=
  failures session.lineCount
    (traceText session.nested (traceNested session.lineCount session.limit) token session.stack)

/-- The states in which words are run one after the other. -/
def statesOf (session : Session) : List Text → List Session
  | [] => []
  | token :: rest =>
      session ::
        match session.step token with
        | .error _ => []
        | .ok (next, _) => next.statesOf rest

/-- What words put on record, given the states in which they are run and their results: for each
of them the failures within it, and then its own. -/
def recordOf (states : List Session) (results : List Step) : List Step :=
  (List.zipWith (fun before result => before.nestedFailures result.token ++ result.failure)
    states results).flatten

theorem recorded_attemptWord {o : Outcome}
    (hattempt : attemptWord session.limit session.lineCount token session.stack = .ok o) :
    recorded o = session.nestedFailures token := by
  unfold attemptWord at hattempt
  split at hattempt
  next hliteral =>
    cases hattempt
    simp only [Bool.and_eq_true, beq_iff_eq] at hliteral
    simp [nestedFailures, traceText, isExecutable, hliteral.2, recorded]
  next =>
    exact recorded_attempt (recorded_runNested session.lineCount session.limit) hattempt

/-- A word puts on record the failures within it, and then its own. -/
theorem skipped_step (hstep : session.step token = .ok (after, result)) :
    after.skipped = session.skipped ++ (session.nestedFailures token ++ result.failure) := by
  obtain ⟨o, hattempt, rfl, rfl⟩ := step_eq_ok.mp hstep
  have hrecorded := recorded_absorb session.lineCount token o
  rw [recorded_attemptWord hattempt] at hrecorded
  rw [skipped_advance, ← recorded, hrecorded, Step.failure]
  cases o.fault <;> rfl

theorem token_of_step (hstep : session.step token = .ok (after, result)) :
    result.token = token ∧ result.line = session.lineCount := by
  obtain ⟨o, -, -, rfl⟩ := step_eq_ok.mp hstep
  exact ⟨rfl, rfl⟩

theorem skipped_runWords_eq (hrun : session.runWords tokens = (after, .ok steps)) :
    after.skipped = session.skipped ++ recordOf (session.statesOf tokens) steps := by
  induction tokens generalizing session steps with
  | nil =>
      cases hrun
      exact (List.append_nil _).symm
  | cons token rest ih =>
      obtain ⟨middle, result, others, hstep, hothers, rfl⟩ := runWords_cons_eq_ok.mp hrun
      rw [ih hothers, skipped_step hstep, statesOf, hstep, recordOf, recordOf]
      simp only [List.zipWith_cons_cons, List.flatten_cons, (token_of_step hstep).1,
        List.append_assoc]

theorem length_statesOf (hrun : session.runWords tokens = (after, .ok steps)) :
    (session.statesOf tokens).length = steps.length := by
  induction tokens generalizing session steps with
  | nil =>
      cases hrun
      rfl
  | cons token rest ih =>
      obtain ⟨middle, result, others, hstep, hothers, rfl⟩ := runWords_cons_eq_ok.mp hrun
      rw [statesOf, hstep, List.length_cons, List.length_cons, ih hothers]

theorem line_of_runWords (hrun : session.runWords tokens = (after, .ok steps)) :
    ∀ step ∈ steps, step.line = session.lineCount := by
  induction tokens generalizing session steps with
  | nil =>
      cases hrun
      nofun
  | cons token rest ih =>
      obtain ⟨middle, result, others, hstep, hothers, rfl⟩ := runWords_cons_eq_ok.mp hrun
      obtain ⟨o, -, rfl, rfl⟩ := step_eq_ok.mp hstep
      have hrest := ih hothers
      exact List.forall_mem_cons.mpr ⟨rfl, hrest⟩

/-- Whatever words put on record, also if they do not end, carries the number of the line and a
fault. -/
theorem newlySkipped_runWords (session : Session) (tokens : List Text) :
    ∀ step ∈ session.newlySkipped (session.runWords tokens).1,
      step.line = session.lineCount ∧ step.fault ≠ none := by
  induction tokens generalizing session with
  | nil =>
      rw [runWords_nil, newlySkipped_self]
      nofun
  | cons token rest ih =>
      cases hstep : session.step token with
      | error fault =>
          rw [runWords_cons_error hstep, newlySkipped_self]
          nofun
      | ok reached =>
          obtain ⟨middle, result⟩ := reached
          rw [runWords_cons_ok hstep]
          have hcount : middle.lineCount = session.lineCount := by
            obtain ⟨o, -, rfl, -⟩ := step_eq_ok.mp hstep
            rfl
          have hmore : (middle.runWords rest).1.skipped = session.skipped ++
              (session.nestedFailures token ++ result.failure ++
                middle.newlySkipped (middle.runWords rest).1) := by
            rw [skipped_runWords, skipped_step hstep, List.append_assoc]
          rw [newlySkipped_of_append hmore]
          intro step hmem
          rcases List.mem_append.mp hmem with hfirst | hlater
          · rcases List.mem_append.mp hfirst with hnested | hown
            · obtain ⟨run, -, hfailure⟩ := List.mem_filterMap.mp hnested
              exact NestedRun.line_of_failure? hfailure
            · obtain ⟨rfl, hfault⟩ := Step.mem_failure.mp hown
              exact ⟨(token_of_step hstep).2, hfault⟩
          · rw [← hcount]
            exact ih middle step hlater

/-! ## Sequences of lines and sources -/

/-- What a session can be given to run. -/
inductive Input where
  | line (text : Text)
  | source (text : Text)
  deriving DecidableEq, Repr

/-- Runs an input. What is left if it does not end is the state that it was left in. -/
def feed (session : Session) : Input → Session
  | .line text => (session.runLine text).1
  | .source text => (session.runSource text).1

/-- Runs inputs one after the other. -/
def feedAll (session : Session) (inputs : List Input) : Session := inputs.foldl feed session

/-- The steps on record failed, line after line, on lines that were read. -/
structure HasOrderedRecord (session : Session) : Prop where
  ordered : session.skipped.Pairwise fun earlier later => earlier.line ≤ later.line
  bounded : ∀ step ∈ session.skipped, step.line ≤ session.lineCount
  failed : ∀ step ∈ session.skipped, step.fault ≠ none

theorem HasOrderedRecord.of_empty (hempty : session.skipped = []) : session.HasOrderedRecord := by
  constructor <;> simp [hempty]

theorem HasOrderedRecord.runLine (hrecord : session.HasOrderedRecord) (line : Text) :
    (session.runLine line).1.HasOrderedRecord := by
  have hcount : (session.runLine line).1.lineCount = session.lineCount + 1 :=
    (runLine_keeps session line).2
  have hgrown := skipped_runLine session line
  have hnew : ∀ step ∈ session.newlySkipped (session.runLine line).1,
      step.line = session.lineCount + 1 ∧ step.fault ≠ none := by
    rw [runLine_eq, ← newlySkipped_beginLine line]
    exact newlySkipped_runWords (session.beginLine line) (Token.texts line)
  refine ⟨?_, ?_, ?_⟩
  · rw [hgrown, List.pairwise_append]
    refine ⟨hrecord.ordered, ?_, fun earlier hearlier later hlater => ?_⟩
    · -- all new steps are of one line
      refine List.pairwise_of_forall_mem_list fun earlier hearlier later hlater => ?_
      rw [(hnew earlier hearlier).1, (hnew later hlater).1]
    · have hbound := hrecord.bounded earlier hearlier
      rw [(hnew later hlater).1]
      omega
  · intro step hstep
    rw [hcount]
    rw [hgrown] at hstep
    rcases List.mem_append.mp hstep with hold | hlater
    · have hbound := hrecord.bounded step hold
      omega
    · exact Nat.le_of_eq (hnew step hlater).1
  · intro step hstep
    rw [hgrown] at hstep
    rcases List.mem_append.mp hstep with hold | hlater
    · exact hrecord.failed step hold
    · exact (hnew step hlater).2

theorem HasOrderedRecord.runLines (hrecord : session.HasOrderedRecord) (lines : List Text) :
    (session.runLines lines).1.HasOrderedRecord := by
  induction lines generalizing session with
  | nil => exact hrecord
  | cons line rest ih =>
      have hline := hrecord.runLine line
      rw [Session.runLines]
      rcases hrun : session.runLine line with ⟨middle, fault | steps⟩
      · rw [hrun] at hline
        exact hline
      · rw [hrun] at hline
        exact ih hline

theorem HasOrderedRecord.feedAll (hrecord : session.HasOrderedRecord) (inputs : List Input) :
    (session.feedAll inputs).HasOrderedRecord := by
  induction inputs generalizing session with
  | nil => exact hrecord
  | cons input rest ih =>
      cases input with
      | line text => exact ih (hrecord.runLine text)
      | source text => exact ih (hrecord.runLines (Text.lines text))

/-- A line that is run to its end counts as one, and its results are those of its words in
order. It adds to the record, word by word, the failures that ended with runs within the word
and then the failure of the word itself, if it failed; all carry the number of the line. Hence
the steps on the record of a session never go back to an earlier line, are of lines that were
read, and all failed, whatever the session was given to run and whether or not it came to an
end. -/
theorem record_complete (session : Session) :
    (∀ line after steps, session.runLine line = (after, .ok steps) →
      after.lineCount = session.lineCount + 1 ∧
      steps.map Step.token = Token.texts line ∧
      (∀ step ∈ steps, step.line = after.lineCount) ∧
      ((session.beginLine line).statesOf (Token.texts line)).length = steps.length ∧
      after.skipped = session.skipped ++
        recordOf ((session.beginLine line).statesOf (Token.texts line)) steps ∧
      ∀ step ∈ session.newlySkipped after, step.line = after.lineCount ∧ step.fault ≠ none) ∧
    (session.skipped = [] → ∀ inputs, (session.feedAll inputs).HasOrderedRecord) := by
  refine ⟨fun line after steps hrun => ?_, fun hempty inputs => ?_⟩
  · have hcount := (runLine_keeps session line).2
    rw [hrun] at hcount
    have hnew := newlySkipped_runWords (session.beginLine line) (Token.texts line)
    rw [runLine_eq] at hrun
    rw [hrun, newlySkipped_beginLine] at hnew
    have hgrown := skipped_runWords_eq hrun
    rw [skipped_beginLine] at hgrown
    rw [hcount]
    exact ⟨rfl, runWords_tokens hrun, line_of_runWords hrun, length_statesOf hrun, hgrown, hnew⟩
  · exact (HasOrderedRecord.of_empty hempty).feedAll inputs

/-- A lambda that calls itself fails for want of depth; what it could not add before that stays
on record in front of it. -/
theorem record_complete_runaway :
    let session : Session := { limit := 12 }
    let line : Text := "\x7b0 | 1 + SELF EVAL\x7d bogus".toList
    ∃ after steps, session.runLine line = (after, .ok steps) ∧
      after.lineCount = 1 ∧ steps.length = 2 ∧
      after.skipped.map Step.token =
        ["+".toList, "\x7b0 | 1 + SELF EVAL\x7d".toList, "bogus".toList] ∧
      (∀ step ∈ after.skipped, step.line = 1 ∧ step.fault ≠ none) ∧
      session.skipped = [] ∧
      (session.feedAll [.line line, .source "SWAP\n1 +".toList]).HasOrderedRecord := by
  intro session line
  obtain ⟨hline, hinputs⟩ := record_complete session
  have hempty : session.skipped = [] := rfl
  rcases hrun : session.runLine line with ⟨after, fault | steps⟩
  · have hends : ((session.runLine line).2.toOption.isSome) = true := by decide +kernel
    rw [hrun] at hends
    cases hends
  · obtain ⟨hcount, htokens, -, -, -, hnew⟩ := hline line after steps hrun
    have hskipped : (session.runLine line).1.skipped.map Step.token =
        ["+".toList, "\x7b0 | 1 + SELF EVAL\x7d".toList, "bogus".toList] := by
      decide +kernel
    rw [hrun] at hskipped
    refine ⟨after, steps, rfl, hcount, ?_, hskipped, ?_, hempty, hinputs hempty _⟩
    · have hlength := congrArg List.length htokens
      rw [List.length_map] at hlength
      rw [hlength]
      decide +kernel
    · rw [hcount] at hnew
      exact hnew

end Session

end StackScript
