import StackScript.Proofs.Evaluation.Rollback
import StackScript.Session

/-! # The words of a line

A session runs the words of a line one after the other. Each word sees the limit, the line
number and the stack of the session, and adds to its journal; nothing else of the session
takes part.
-/

namespace StackScript

namespace Evaluation

/-- The guarded run of a word of a line. A word that is neither an operator nor a value fails
at once. -/
def attemptWord (limit line : Nat) (token : Text) (s : Stack) : Except Fault Outcome :=
  if token.head? != some quoteMark && Text.kind token == .literal then
    .ok { stack := s, fault := some (.unrecognized token) }
  else attempt limit (runNested line limit) token s

@[simp]
theorem absorb_stack (line : Nat) (t : Text) (o : Outcome) : (absorb line t o).stack = o.stack := by
  unfold absorb
  split <;> rfl

@[simp]
theorem absorb_fault (line : Nat) (t : Text) (o : Outcome) : (absorb line t o).fault = none := by
  unfold absorb
  split
  next h => exact h
  next => rfl

/-- A word of a line that fails leaves the stack as it was. -/
theorem attemptWord_stack_of_fault {limit line : Nat} {token : Text} {s : Stack} {o : Outcome}
    {fault : Fault} (hattempt : attemptWord limit line token s = .ok o)
    (hfault : o.fault = some fault) : o.stack = s := by
  unfold attemptWord at hattempt
  split at hattempt
  · cases hattempt
    rfl
  · exact attempt_stack_of_fault hattempt hfault

end Evaluation

namespace Session

open Evaluation

variable {session : Session}

@[simp]
theorem advance_limit (o : Outcome) : (session.advance o).limit = session.limit := rfl

@[simp]
theorem advance_stack (o : Outcome) : (session.advance o).stack = o.stack := rfl

@[simp]
theorem advance_lineCount (o : Outcome) : (session.advance o).lineCount = session.lineCount := rfl

/-- The session before the first word of a line. -/
def beginLine (session : Session) (line : Text) : Session :=
  { session with
    lineCount := session.lineCount + 1
    journal := session.journal ++ [.lineRead line] }

theorem runLine_eq (line : Text) :
    session.runLine line = (session.beginLine line).runWords (Token.texts line) := rfl

@[simp]
theorem skipped_beginLine (line : Text) : (session.beginLine line).skipped = session.skipped := by
  simp [skipped, beginLine, Event.step?]

@[simp]
theorem skipped_advance (o : Outcome) :
    (session.advance o).skipped = session.skipped ++ o.events.filterMap Event.step? := by
  simp [skipped, advance]

/-- The steps that failed from one state of a session to a later one, nested ones
included. -/
def newlySkipped (before after : Session) : List Step := after.skipped.drop before.skipped.length

theorem newlySkipped_of_append {before after : Session} {more : List Step}
    (hmore : after.skipped = before.skipped ++ more) : before.newlySkipped after = more := by
  rw [newlySkipped, hmore, List.drop_left]

@[simp]
theorem newlySkipped_beginLine (line : Text) (after : Session) :
    (session.beginLine line).newlySkipped after = session.newlySkipped after := by
  rw [newlySkipped, newlySkipped, skipped_beginLine]

theorem newlySkipped_self (session : Session) : session.newlySkipped session = [] :=
  newlySkipped_of_append (List.append_nil _).symm

theorem step_eq (token : Text) :
    session.step token =
      (attemptWord session.limit session.lineCount token session.stack).map fun o =>
        (session.advance (absorb session.lineCount token o),
          ⟨token, session.lineCount, o.fault⟩) := rfl

/-- What a step leaves behind: the outcome of the guarded run, with the failure recorded. -/
theorem step_eq_ok {token : Text} {after : Session} {result : Step} :
    session.step token = .ok (after, result) ↔
      ∃ o, attemptWord session.limit session.lineCount token session.stack = .ok o ∧
        after = session.advance (absorb session.lineCount token o) ∧
        result = ⟨token, session.lineCount, o.fault⟩ := by
  rw [step_eq]
  cases attemptWord session.limit session.lineCount token session.stack with
  | error fault => simp [Except.map]
  | ok o => simp [Except.map, eq_comm]

theorem step_eq_error {token : Text} {fault : Fault} :
    session.step token = .error fault ↔
      attemptWord session.limit session.lineCount token session.stack = .error fault := by
  rw [step_eq]
  cases attemptWord session.limit session.lineCount token session.stack <;> simp [Except.map]

@[simp]
theorem runWords_nil : session.runWords [] = (session, .ok []) := rfl

theorem runWords_cons_error {token : Text} {rest : List Text} {fault : Fault}
    (hstep : session.step token = .error fault) :
    session.runWords (token :: rest) = (session, .error fault) := by
  rw [runWords, hstep]

theorem runWords_cons_ok {token : Text} {rest : List Text} {middle : Session} {result : Step}
    (hstep : session.step token = .ok (middle, result)) :
    session.runWords (token :: rest) =
      ((middle.runWords rest).1, (middle.runWords rest).2.map (result :: ·)) := by
  rw [runWords, hstep]

/-- A run of words that ends is a step and a run of the other words that ends. -/
theorem runWords_cons_eq_ok {token : Text} {rest : List Text} {after : Session}
    {steps : List Step} :
    session.runWords (token :: rest) = (after, .ok steps) ↔
      ∃ middle result others, session.step token = .ok (middle, result) ∧
        middle.runWords rest = (after, .ok others) ∧ steps = result :: others := by
  cases hstep : session.step token with
  | error fault => simp [runWords_cons_error hstep]
  | ok reached =>
      obtain ⟨middle, result⟩ := reached
      rw [runWords_cons_ok hstep]
      rcases hrest : middle.runWords rest with ⟨last, fault | others⟩
      · simp [Except.map, hrest]
      · constructor
        · intro h
          cases h
          exact ⟨middle, result, others, rfl, hrest, rfl⟩
        · rintro ⟨_, _, _, h, hrun, rfl⟩
          cases h
          rw [hrest] at hrun
          cases hrun
          rfl

/-- A line of a single word is a step. -/
theorem runLine_single {line token : Text} {o : Outcome} (htexts : Token.texts line = [token])
    (hattempt : attemptWord session.limit (session.lineCount + 1) token session.stack = .ok o) :
    session.runLine line =
      ((session.beginLine line).advance (absorb (session.lineCount + 1) token o),
        .ok [⟨token, session.lineCount + 1, o.fault⟩]) := by
  have hstep : (session.beginLine line).step token =
      .ok ((session.beginLine line).advance (absorb (session.lineCount + 1) token o),
        ⟨token, session.lineCount + 1, o.fault⟩) :=
    step_eq_ok.mpr ⟨o, hattempt, rfl, rfl⟩
  rw [runLine_eq, htexts]
  exact runWords_cons_eq_ok.mpr ⟨_, _, [], hstep, rfl, rfl⟩

/-- A run of words that ends can be cut at any word. -/
theorem runWords_append_eq_ok {done rest : List Text} {after : Session} {steps : List Step}
    (hrun : session.runWords (done ++ rest) = (after, .ok steps)) :
    ∃ middle first second, session.runWords done = (middle, .ok first) ∧
      middle.runWords rest = (after, .ok second) ∧ steps = first ++ second := by
  induction done generalizing session steps with
  | nil => exact ⟨session, [], steps, rfl, hrun, rfl⟩
  | cons token done ih =>
      obtain ⟨next, result, others, hstep, hothers, rfl⟩ := runWords_cons_eq_ok.mp hrun
      obtain ⟨middle, first, second, hfirst, hsecond, rfl⟩ := ih hothers
      refine ⟨middle, result :: first, second, ?_, hsecond, rfl⟩
      exact runWords_cons_eq_ok.mpr ⟨next, result, first, hstep, hfirst, rfl⟩

/-- What was skipped before stays in the journal. -/
theorem skipped_runWords (session : Session) (tokens : List Text) :
    (session.runWords tokens).1.skipped =
      session.skipped ++ session.newlySkipped (session.runWords tokens).1 := by
  -- the journal only grows; what it grew by is then what the length drops
  have hextends : ∃ more, (session.runWords tokens).1.skipped = session.skipped ++ more := by
    induction tokens generalizing session with
    | nil => exact ⟨[], (List.append_nil _).symm⟩
    | cons token rest ih =>
        cases hstep : session.step token with
        | error fault =>
            rw [runWords_cons_error hstep]
            exact ⟨[], (List.append_nil _).symm⟩
        | ok reached =>
            obtain ⟨middle, result⟩ := reached
            obtain ⟨o, _, rfl, _⟩ := step_eq_ok.mp hstep
            obtain ⟨more, hmore⟩ := ih (session.advance (absorb session.lineCount token o))
            rw [runWords_cons_ok hstep, hmore, skipped_advance, List.append_assoc]
            exact ⟨_, rfl⟩
  obtain ⟨more, hmore⟩ := hextends
  rw [newlySkipped_of_append hmore, hmore]

/-- The results of a run are those of its words, in order. -/
theorem runWords_tokens {tokens : List Text} {after : Session} {steps : List Step}
    (hrun : session.runWords tokens = (after, .ok steps)) : steps.map Step.token = tokens := by
  induction tokens generalizing session steps with
  | nil =>
      cases hrun
      rfl
  | cons token rest ih =>
      obtain ⟨middle, result, others, hstep, hothers, rfl⟩ := runWords_cons_eq_ok.mp hrun
      obtain ⟨o, _, _, rfl⟩ := step_eq_ok.mp hstep
      rw [List.map_cons, ih hothers]

end Session

end StackScript
