import StackScript.Proofs.Evaluation.Exhaustion

/-! # The nested runs within a word

`EVAL` and lambdas run further texts, and these may run others in turn. The trace of a word
lists all of these nested runs, each with the stack that it found, in the order in which they
ended. What a word puts on record is this trace, reduced to the runs that failed: each of them
once, in this order, whatever became of the slots that a run around it had touched.
-/

namespace StackScript

open Evaluation

/-- A text that was run within a word, the stack that it found, and how many nested calls were
left to it. -/
structure NestedRun where
  depth : Nat
  token : Text
  stack : Stack

/-- The failure that ends with the run. A failure to nest any deeper does not: the run passes it
on to the one around it, as it does when the reach of its text cannot be told. -/
def NestedRun.failure? (line : Nat) (run : NestedRun) : Option Step :=
  match attempt run.depth (runNested line run.depth) run.token run.stack with
  | .error _ => none
  | .ok o =>
      if o.fault = some .tooDeep then none
      else o.fault.map fun fault => ⟨run.token, line, some fault⟩

theorem NestedRun.line_of_failure? {line : Nat} {run : NestedRun} {step : Step}
    (hfailure : run.failure? line = some step) : step.line = line ∧ step.fault ≠ none := by
  unfold failure? at hfailure
  split at hfailure
  next => cases hfailure
  next o _ =>
    split at hfailure
    next => cases hfailure
    next =>
      obtain ⟨fault, -, rfl⟩ := Option.map_eq_some_iff.mp hfailure
      exact ⟨rfl, Option.some_ne_none fault⟩

/-- No failure is lost: a run whose failure does not end with it either succeeded or ends the run
around it as well. -/
theorem NestedRun.failure?_eq_none_iff {line : Nat} {run : NestedRun} :
    run.failure? line = none ↔
      (∃ o, attempt run.depth (runNested line run.depth) run.token run.stack = .ok o ∧
        o.fault = none) ∨
        (runNested line (run.depth + 4) (.text run.token) run.stack).fault ≠ none := by
  rw [failure?, runNested, runGuarded]
  cases attempt run.depth (runNested line run.depth) run.token run.stack with
  | error fault => simp
  | ok o =>
      cases hfault : o.fault with
      | none => simp [hfault]
      | some fault =>
          by_cases hdeep : fault = .tooDeep
          · simp [hfault, hdeep]
          · simp [hfault, hdeep, absorb]

namespace Evaluation

section Definitions

variable (nested : Value → Stack → Outcome) (trace : Value → Stack → List NestedRun)

/-- The nested runs within a word of the body of a lambda, given those within a value. A
parameter and the word for the lambda itself run nothing. -/
def traceBodyWord (token : Text) (s : Stack) : List NestedRun :=
  match Lambda.parameterIndex? token with
  | .ok none => if token == Lambda.selfWord then [] else trace (.text token) s
  | _ => []

/-- The nested runs within words, up to the first that ends with a fault. -/
def traceWords (run : Text → Stack → Outcome) (trace : Text → Stack → List NestedRun) :
    List Text → Stack → List NestedRun
  | [], _ => []
  | token :: rest, s =>
      trace token s ++
        match (run token s).fault with
        | some _ => []
        | none => traceWords run trace rest (run token s).stack

/-- The nested runs within a call of a lambda. -/
def traceCall (text : Text) (s : Stack) : List NestedRun :=
  match Lambda.read text with
  | .error _ => []
  | .ok lambda =>
      match Lambda.bind? lambda.parameters s with
      | none => []
      | some (parameters, rest) =>
          traceWords (runBodyWord nested text parameters) (traceBodyWord trace) lambda.body rest

/-- The nested runs within a run of a text. -/
def traceText (t : Text) (s : Stack) : List NestedRun :=
  if isExecutable t then
    if Text.kind t = .lambda then traceCall nested trace t s
    else if t = evalWord then
      match s with
      | [] => []
      | v :: rest => trace v rest
    else []
  else []

/-- The nested runs within a run of a value, that of the value itself included if it is a
text. -/
def traceNested (line : Nat) : (depth : Nat) → Value → Stack → List NestedRun
  | depth + 4, .text t, s =>
      traceText (runNested line depth) (traceNested line depth) t s ++ [⟨depth, t, s⟩]
  | _, _, _ => []

end Definitions

/-! ## What is put on record -/

/-- The steps that an outcome puts on record. -/
def recorded (o : Outcome) : List Step := o.events.filterMap Event.step?

theorem recorded_andThen (o : Outcome) (next : Stack → Outcome) :
    recorded (o.andThen next) =
      recorded o ++ match o.fault with
        | some _ => []
        | none => recorded (next o.stack) := by
  unfold Outcome.andThen
  cases o.fault with
  | none => simp [recorded]
  | some fault => simp

theorem recorded_absorb (line : Nat) (t : Text) (o : Outcome) :
    recorded (absorb line t o) =
      recorded o ++ (o.fault.map fun fault => (⟨t, line, some fault⟩ : Step)).toList := by
  unfold absorb
  cases hfault : o.fault with
  | none => simp
  | some fault => simp [recorded, Event.step?]

variable {depth line : Nat} {nested : Value → Stack → Outcome}
  {trace : Value → Stack → List NestedRun} {t : Text} {s : Stack}

/-- The failures that end with the runs of a trace. -/
def failures (line : Nat) (runs : List NestedRun) : List Step :=
  runs.filterMap (NestedRun.failure? line)

@[simp]
theorem failures_nil : failures line [] = [] := rfl

@[simp]
theorem failures_append (runs more : List NestedRun) :
    failures line (runs ++ more) = failures line runs ++ failures line more :=
  List.filterMap_append

theorem recorded_runWords {run : Text → Stack → Outcome} {trace : Text → Stack → List NestedRun}
    (hrun : ∀ token s, recorded (run token s) = failures line (trace token s))
    (tokens : List Text) (s : Stack) :
    recorded (runWords run tokens s) = failures line (traceWords run trace tokens s) := by
  induction tokens generalizing s with
  | nil => rfl
  | cons token rest ih =>
      rw [runWords, recorded_andThen, hrun, traceWords, failures_append]
      cases (run token s).fault with
      | none => simp only [ih]
      | some fault => rfl

section Nested

variable (hnested : ∀ v s, recorded (nested v s) = failures line (trace v s))

include hnested

theorem recorded_runBodyWord (text : Text) (parameters : List Value) (token : Text) (s : Stack) :
    recorded (runBodyWord nested text parameters token s) =
      failures line (traceBodyWord trace token s) := by
  unfold runBodyWord traceBodyWord
  split
  next fault hindex => rw [hindex]; rfl
  next index hindex => rw [hindex]; rfl
  next hindex =>
    rw [hindex]
    simp only
    split
    · rfl
    · exact hnested _ _

theorem recorded_call (text : Text) (s : Stack) :
    recorded (call nested text s) = failures line (traceCall nested trace text s) := by
  unfold call traceCall
  cases Lambda.read text with
  | error fault => rfl
  | ok lambda =>
      simp only [Outcome.after]
      cases Lambda.bind? lambda.parameters s with
      | none => rfl
      | some bound =>
          -- that the lambda was read is no step
          exact recorded_runWords (recorded_runBodyWord hnested text bound.1) lambda.body bound.2

theorem recorded_runText (depth : Nat) (t : Text) (s : Stack) :
    recorded (runText depth nested t s) = failures line (traceText nested trace t s) := by
  unfold traceText
  cases hexecutable : isExecutable t with
  | false =>
      obtain ⟨pushed, hpushed⟩ := runText_of_not_executable hexecutable
      rw [hpushed]
      rfl
  | true =>
      rw [if_pos rfl]
      obtain ⟨_, hkind | hkind⟩ := isExecutable_eq_true.mp hexecutable
      · rw [if_neg (by rw [hkind]; decide)]
        by_cases heval : t = evalWord
        · rw [if_pos heval, runText_of_eval hexecutable hkind heval]
          cases s with
          | nil => rfl
          | cons v rest => exact hnested v rest
        · rw [if_neg heval, runText_of_operator hexecutable hkind heval]
          rfl
      · rw [if_pos hkind, runText_of_lambda hexecutable hkind]
        exact recorded_call hnested t s

end Nested

theorem reach_of_attempt_error {fault : Fault}
    (hattempt : attempt depth nested t s = .error fault) : reach depth t s = .error fault := by
  cases hexecutable : isExecutable t with
  | false =>
      rw [attempt_of_not_executable hexecutable] at hattempt
      cases hattempt
  | true =>
      rw [attempt_of_executable hexecutable] at hattempt
      cases hreach : reach depth t s with
      | error early =>
          rw [hreach] at hattempt
          cases hattempt
          rfl
      | ok count =>
          rw [hreach] at hattempt
          simp only at hattempt
          split at hattempt <;> cases hattempt

/-- Only operators have a reach that cannot be told, and these run nothing. -/
theorem traceText_of_reach_error {fault : Fault} (hreach : reach depth t s = .error fault) :
    traceText nested trace t s = [] := by
  unfold reach at hreach
  split at hreach
  next hkind =>
    have hlambda : Text.kind t ≠ .lambda := by
      rw [beq_iff_eq.mp hkind]
      decide
    have heval : t ≠ evalWord := by
      rintro rfl
      cases hreach
    simp [traceText, hlambda, heval]
  next => cases hreach

theorem recorded_attempt {o : Outcome}
    (hnested : ∀ v s, recorded (nested v s) = failures line (trace v s))
    (hattempt : attempt depth nested t s = .ok o) :
    recorded o = failures line (traceText nested trace t s) := by
  rw [recorded, (attempt_keeps hattempt).2]
  exact recorded_runText hnested depth t s

/-- What a nested run puts on record are the failures of its trace: those of the runs within it,
and then its own. -/
theorem recorded_runNested (line depth : Nat) (v : Value) (s : Stack) :
    recorded (runNested line depth v s) = failures line (traceNested line depth v s) := by
  induction depth using Nat.strongRecOn generalizing v s with
  | ind depth ih =>
    match depth, v with
    | 0, _ | 1, _ | 2, _ | 3, _ => rfl
    | depth + 4, .bool _ | depth + 4, .null | depth + 4, .number _ | depth + 4, .list _
    | depth + 4, .object _ => rfl
    | depth + 4, .text t =>
        rw [runNested, runGuarded, traceNested, failures_append]
        have hown : failures line [⟨depth, t, s⟩] =
            (NestedRun.failure? line ⟨depth, t, s⟩).toList := by
          rw [failures, List.filterMap_cons]
          cases NestedRun.failure? line ⟨depth, t, s⟩ <;> rfl
        rw [hown, NestedRun.failure?]
        cases hattempt : attempt depth (runNested line depth) t s with
        | error fault =>
            rw [traceText_of_reach_error (reach_of_attempt_error hattempt)]
            rfl
        | ok o =>
            have hwithin := recorded_attempt (ih depth (by omega)) hattempt
            simp only
            split
            next hdeep => simpa using hwithin
            next => rw [recorded_absorb, hwithin]

end Evaluation

end StackScript
