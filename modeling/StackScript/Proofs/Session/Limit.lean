import StackScript.Proofs.Evaluation.Exhaustion
import StackScript.Proofs.Session.Interchange

/-! # The recursion limit

A greater limit changes nothing for a run that did not come to the smaller one. Where a word
does come to it, the word fails as a whole: its step reports the limit, the stack is as it was
before, and no nested step has taken the blame.
-/

namespace StackScript.Session

open Evaluation

variable {session other : Session}

/-! ## What a run keeps -/

theorem runWords_keeps (session : Session) (tokens : List Text) :
    (session.runWords tokens).1.limit = session.limit ∧
      (session.runWords tokens).1.lineCount = session.lineCount := by
  induction tokens generalizing session with
  | nil => exact ⟨rfl, rfl⟩
  | cons token rest ih =>
      cases hstep : session.step token with
      | error fault =>
          rw [runWords_cons_error hstep]
          exact ⟨rfl, rfl⟩
      | ok reached =>
          obtain ⟨middle, result⟩ := reached
          obtain ⟨o, _, rfl, _⟩ := step_eq_ok.mp hstep
          rw [runWords_cons_ok hstep]
          exact ih (session.advance (absorb session.lineCount token o))

theorem runLine_keeps (session : Session) (line : Text) :
    (session.runLine line).1.limit = session.limit ∧
      (session.runLine line).1.lineCount = session.lineCount + 1 :=
  runWords_keeps (session.beginLine line) (Token.texts line)

theorem skipped_runLine (session : Session) (line : Text) :
    (session.runLine line).1.skipped =
      session.skipped ++ session.newlySkipped (session.runLine line).1 := by
  rw [runLine_eq, skipped_runWords, skipped_beginLine, newlySkipped_beginLine]

theorem skipped_runLines (session : Session) (lines : List Text) :
    (session.runLines lines).1.skipped =
      session.skipped ++ session.newlySkipped (session.runLines lines).1 := by
  have hextends : ∃ more, (session.runLines lines).1.skipped = session.skipped ++ more := by
    induction lines generalizing session with
    | nil => exact ⟨[], (List.append_nil _).symm⟩
    | cons line rest ih =>
        have hline := skipped_runLine session line
        rw [runLines]
        rcases hrun : session.runLine line with ⟨middle, fault | steps⟩
        · rw [hrun] at hline
          exact ⟨_, hline⟩
        · rw [hrun] at hline
          obtain ⟨more, hmore⟩ := ih middle
          refine ⟨session.newlySkipped middle ++ more, ?_⟩
          simp only
          rw [hmore, hline, List.append_assoc]
  obtain ⟨more, hmore⟩ := hextends
  rw [newlySkipped_of_append hmore, hmore]

theorem newlySkipped_runLines_cons {line : Text} {rest : List Text} {middle : Session}
    {steps : List Step} (hline : session.runLine line = (middle, .ok steps)) :
    session.newlySkipped (session.runLines (line :: rest)).1 =
      session.newlySkipped middle ++ middle.newlySkipped (middle.runLines rest).1 := by
  have hfirst := skipped_runLine session line
  rw [hline] at hfirst
  apply newlySkipped_of_append
  rw [runLines, hline]
  simp only
  rw [skipped_runLines, hfirst, List.append_assoc]

/-! ## A greater limit -/

/-- Running the lines never comes to the limit of nesting, neither at the top nor nested. -/
def KeepsDepthThrough (session : Session) (lines : List Text) : Prop :=
  (session.runLines lines).2 ≠ some .tooDeep ∧
    ∀ step ∈ session.newlySkipped (session.runLines lines).1, step.fault ≠ some .tooDeep

theorem KeepsDepthThrough.head {line : Text} {rest : List Text}
    (hdepth : session.KeepsDepthThrough (line :: rest)) :
    (session.beginLine line).KeepsDepth (Token.texts line) := by
  obtain ⟨hends, hsteps⟩ := hdepth
  rw [KeepsDepth, ← runLine_eq, newlySkipped_beginLine]
  rcases hline : session.runLine line with ⟨middle, fault | steps⟩
  · rw [runLines, hline] at hends hsteps
    refine ⟨?_, hsteps⟩
    rintro ⟨⟩
    exact hends rfl
  · rw [newlySkipped_runLines_cons hline] at hsteps
    exact ⟨nofun, fun step h => hsteps step (List.mem_append_left _ h)⟩

theorem KeepsDepthThrough.tail {line : Text} {rest : List Text} {middle : Session}
    {steps : List Step} (hdepth : session.KeepsDepthThrough (line :: rest))
    (hline : session.runLine line = (middle, .ok steps)) : middle.KeepsDepthThrough rest := by
  obtain ⟨hends, hsteps⟩ := hdepth
  rw [newlySkipped_runLines_cons hline] at hsteps
  rw [runLines, hline] at hends
  exact ⟨hends, fun step h => hsteps step (List.mem_append_right _ h)⟩

/-- Lines that do not come to the limit do the same under a greater one. -/
theorem runLines_limit {lines : List Text} (hlimit : session.limit ≤ other.limit)
    (hcount : session.lineCount = other.lineCount) (hstack : session.stack = other.stack)
    (hdepth : session.KeepsDepthThrough lines) :
    (session.runLines lines).2 = (other.runLines lines).2 ∧
      session.newlySkipped (session.runLines lines).1 =
        other.newlySkipped (other.runLines lines).1 ∧
      (session.runLines lines).1.stack = (other.runLines lines).1.stack := by
  induction lines generalizing session other with
  | nil => exact ⟨rfl, by rw [runLines, runLines, newlySkipped_self, newlySkipped_self], hstack⟩
  | cons line rest ih =>
      have hwords : (session.runLine line).2 = (other.runLine line).2 ∧
          session.newlySkipped (session.runLine line).1 =
            other.newlySkipped (other.runLine line).1 ∧
          (session.runLine line).1.stack = (other.runLine line).1.stack := by
        have hbegun : (session.beginLine line).limit ≤ (other.beginLine line).limit := hlimit
        have hrelated := runWords_related interchange_eq (Or.inr hbegun) (congrArg (· + 1) hcount)
          (by rw [List.forall₂_eq_eq_eq]; exact hstack) hdepth.head False.elim
        rwa [List.forall₂_eq_eq_eq, newlySkipped_beginLine, newlySkipped_beginLine] at hrelated
      have hkeeps := runLine_keeps session line
      have hkeeps' := runLine_keeps other line
      rcases hline : session.runLine line with ⟨middle, fault | steps⟩
      · rcases hline' : other.runLine line with ⟨middle', fault' | steps'⟩
        · rw [hline, hline'] at hwords
          rw [runLines, hline, runLines, hline']
          exact ⟨congrArg some (Except.error.inj hwords.1), hwords.2⟩
        · rw [hline, hline'] at hwords
          cases hwords.1
      · rcases hline' : other.runLine line with ⟨middle', fault' | steps'⟩
        · rw [hline, hline'] at hwords
          cases hwords.1
        · rw [hline, hline'] at hwords
          rw [hline] at hkeeps
          rw [hline'] at hkeeps'
          obtain ⟨hfault, hskipped, hend⟩ := @ih middle middle'
            (by rw [hkeeps.1, hkeeps'.1]; exact hlimit)
            (by rw [hkeeps.2, hkeeps'.2, hcount]) hwords.2.2 (hdepth.tail hline)
          rw [newlySkipped_runLines_cons hline, newlySkipped_runLines_cons hline', hwords.2.1,
            hskipped, runLines, hline, runLines, hline']
          exact ⟨hfault, rfl, hend⟩

/-! ## A word that comes to the limit -/

/-- The word runs under its guard, and somewhere inside this run depth runs out. -/
def DispatchExhausts (session : Session) (token : Text) : Prop :=
  isExecutable token = true ∧
    (∃ count, reach session.limit token session.stack = .ok count) ∧
    Exhausts session.limit session.nested (NestedExhausts session.lineCount session.limit) token
      session.stack

theorem step_of_dispatchExhausts {token : Text} (hexhausts : session.DispatchExhausts token) :
    ∃ after earlier,
      session.step token = .ok (after, ⟨token, session.lineCount, some .tooDeep⟩) ∧
      after.stack = session.stack ∧
      session.newlySkipped after = earlier ++ [⟨token, session.lineCount, some .tooDeep⟩] ∧
      ∀ step ∈ earlier, step.fault ≠ some .tooDeep := by
  obtain ⟨hexecutable, ⟨count, hreach⟩, hruns⟩ := hexhausts
  have hdeep := (exhausts_iff (nestedExhausts_iff _ _) hexecutable).mp hruns
  have hguarded : attemptWord session.limit session.lineCount token session.stack =
      attempt session.limit session.nested token session.stack := by
    obtain ⟨_, hkind | hkind⟩ := isExecutable_eq_true.mp hexecutable
    · simp [attemptWord, hkind, nested]
    · simp [attemptWord, hkind, nested]
  obtain ⟨o, ho⟩ : ∃ o, attempt session.limit session.nested token session.stack = .ok o := by
    rw [attempt_of_executable hexecutable, hreach]
    simp only
    split <;> exact ⟨_, rfl⟩
  have hfault : o.fault = some .tooDeep := (attempt_keeps ho).1.trans hdeep
  have hshallow := attempt_isShallow (runNested_isShallow _ _) ho
  refine ⟨session.advance (absorb session.lineCount token o), o.events.filterMap Event.step?,
    ?_, ?_, ?_, hshallow⟩
  · rw [step_eq_ok]
    exact ⟨o, hguarded.trans ho, rfl, by rw [hfault]⟩
  · rw [advance_stack, absorb_stack]
    exact attempt_stack_of_fault ho hfault
  · apply newlySkipped_of_append
    rw [skipped_advance, absorb, hfault, List.filterMap_append]
    rfl

theorem dispatchExhausts_of_step {token : Text} {after : Session}
    (hstep : session.step token = .ok (after, ⟨token, session.lineCount, some .tooDeep⟩)) :
    session.DispatchExhausts token := by
  obtain ⟨o, hattempt, -, hresult⟩ := step_eq_ok.mp hstep
  have hfault : o.fault = some .tooDeep := (congrArg Step.fault hresult).symm
  unfold attemptWord at hattempt
  split at hattempt
  next =>
    cases hattempt
    cases hfault
  next =>
    have hdeep := (attempt_keeps hattempt).1.symm.trans hfault
    cases hexecutable : isExecutable token with
    | false =>
        -- what is only pushed does not fail
        obtain ⟨pushed, hpushed⟩ := runText_of_not_executable hexecutable
        rw [hpushed] at hdeep
        cases hdeep
    | true =>
        refine ⟨hexecutable, ?_, (exhausts_iff (nestedExhausts_iff _ _) hexecutable).mpr hdeep⟩
        rw [attempt_of_executable hexecutable] at hattempt
        cases hreach : reach session.limit token session.stack with
        | error fault =>
            rw [hreach] at hattempt
            cases hattempt
        | ok count => exact ⟨count, rfl⟩

/-- A run of a source in which no step is recorded as failed for want of depth, and that does
not end with this fault either, does the same under every greater limit: it returns or ends
with the same fault, with the same stack and the same skipped steps. And depth runs out
anywhere inside the guarded run of a word exactly if the step of this word fails for want of
it, the stack is put back, and no nested step is recorded as failed for that reason. The
conversions, which recover from other faults, do not hide that depth ran out. -/
theorem runSource_limit (session : Session) :
    (∀ (source : Text) (limit : Nat), session.limit ≤ limit →
      (session.runSource source).2 ≠ some .tooDeep →
      (∀ step ∈ session.newlySkipped (session.runSource source).1, step.fault ≠ some .tooDeep) →
      ({ session with limit := limit }.runSource source).2 = (session.runSource source).2 ∧
        ({ session with limit := limit }.runSource source).1.stack =
          (session.runSource source).1.stack ∧
        ({ session with limit := limit }.runSource source).1.skipped =
          (session.runSource source).1.skipped) ∧
    (∀ token, session.DispatchExhausts token ↔
      ∃ after earlier,
        session.step token = .ok (after, ⟨token, session.lineCount, some .tooDeep⟩) ∧
        after.stack = session.stack ∧
        session.newlySkipped after = earlier ++ [⟨token, session.lineCount, some .tooDeep⟩] ∧
        ∀ step ∈ earlier, step.fault ≠ some .tooDeep) ∧
    (∀ depth v k, Value.convert depth k v = .error .tooDeep →
      Value.coerce depth v k = .error .tooDeep) ∧
    ∀ depth t, Json.read depth t = .error .tooDeep → Json.readList? depth t = .error .tooDeep := by
  refine ⟨fun source limit hlimit hends hsteps => ?_, fun token => ⟨step_of_dispatchExhausts, ?_⟩,
    fun _ _ _ => Value.coerce_of_tooDeep, fun _ _ => Json.readList?_of_tooDeep⟩
  · have hgreater : session.limit ≤ ({ session with limit := limit } : Session).limit := hlimit
    obtain ⟨hfault, hskipped, hstack⟩ := runLines_limit hgreater rfl rfl ⟨hends, hsteps⟩
    refine ⟨hfault.symm, hstack.symm, ?_⟩
    have hgrown := skipped_runLines session (Text.lines source)
    have hgrown' := skipped_runLines { session with limit := limit } (Text.lines source)
    rw [runSource, runSource, hgrown, hgrown', ← hskipped]
    rfl
  · rintro ⟨after, -, hstep, -⟩
    exact dispatchExhausts_of_step hstep

/-- A lambda that calls itself without end fails as one word, and what it could not add on the
way is recorded before. -/
theorem runSource_limit_runaway :
    (({ limit := 1000 } : Session).runSource "3 \x7b1 | x0 2 *\x7d bogus".toList).1.stack =
        (({ limit := 20 } : Session).runSource "3 \x7b1 | x0 2 *\x7d bogus".toList).1.stack ∧
      ∃ after earlier,
        ({ limit := 20 } : Session).step "\x7b0 | 1 + SELF EVAL\x7d".toList =
          .ok (after, ⟨"\x7b0 | 1 + SELF EVAL\x7d".toList, 0, some .tooDeep⟩) ∧
        after.stack = [] ∧
        ({ limit := 20 } : Session).newlySkipped after =
          earlier ++ [⟨"\x7b0 | 1 + SELF EVAL\x7d".toList, 0, some .tooDeep⟩] ∧
        ∀ step ∈ earlier, step.fault ≠ some .tooDeep := by
  obtain ⟨hgreater, hexhausts, -⟩ := runSource_limit { limit := 20 }
  constructor
  · exact (hgreater "3 \x7b1 | x0 2 *\x7d bogus".toList 1000 (by decide) (by decide +kernel)
      (by decide +kernel)).2.1
  · refine (hexhausts _).mp ⟨by decide +kernel, ⟨0, by decide +kernel⟩, ?_⟩
    exact (exhausts_iff (nestedExhausts_iff _ _) (by decide +kernel)).mpr (by decide +kernel)

end StackScript.Session
