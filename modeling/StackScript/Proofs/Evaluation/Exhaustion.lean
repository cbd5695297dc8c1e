import StackScript.Proofs.Session.Words

/-! # Running out of depth

A run that lacks the depth for one of its words, however deeply nested, ends with exactly that
fault: every guard on the way passes it on, none of them records it, and the conversions that
recover from other faults do not recover from it.
-/

namespace StackScript

/-! ## Conversions -/

/-- A conversion that lacks depth does not fall back on the value as it is. -/
theorem Value.coerce_of_tooDeep {depth : Nat} {v : Value} {k : Kind}
    (hconvert : v.convert depth k = .error .tooDeep) : v.coerce depth k = .error .tooDeep := by
  rw [Value.coerce, hconvert]
  rfl

/-- A matrix text that cannot be read for want of depth is not taken for no matrix. -/
theorem Json.readList?_of_tooDeep {depth : Nat} {t : Text}
    (hread : Json.read depth t = .error .tooDeep) : readList? depth t = .error .tooDeep := by
  rw [readList?, hread]

namespace Evaluation

variable {depth line : Nat} {nested : Value → Stack → Outcome} {exhausts : Value → Stack → Prop}
  {t : Text} {s : Stack}

/-! ## Where depth runs out -/

/-- Depth runs out somewhere in the run of a text, given for which nested values it does: in
an operator, in the value that `EVAL` pops, or in a word of a lambda that its run comes to. -/
inductive Exhausts (depth : Nat) (nested : Value → Stack → Outcome)
    (exhausts : Value → Stack → Prop) : Text → Stack → Prop
  | operator {t : Text} {s : Stack} (hkind : Text.kind t = .operator) (heval : t ≠ evalWord)
      (hfault : (Operator.applyNamed depth t s).fault = some .tooDeep) :
      Exhausts depth nested exhausts t s
  | eval {v : Value} {rest : Stack} (hvalue : exhausts v rest) :
      Exhausts depth nested exhausts evalWord (v :: rest)
  | body {t : Text} {s : Stack} {lambda : Lambda} {parameters : List Value} {rest : Stack}
      {done later : List Text} {token : Text} (hkind : Text.kind t = .lambda)
      (hread : Lambda.read t = .ok lambda)
      (hbind : Lambda.bind? lambda.parameters s = some (parameters, rest))
      (hbody : lambda.body = done ++ token :: later)
      (hdone : (runWords (runBodyWord nested t parameters) done rest).fault = none)
      (hword : Lambda.parameterIndex? token = .ok none ∧ token ≠ Lambda.selfWord)
      (hvalue : exhausts (.text token)
        (runWords (runBodyWord nested t parameters) done rest).stack) :
      Exhausts depth nested exhausts t s

/-- Depth runs out somewhere in the run of a nested value: there is not enough of it to begin,
or to tell the reach of the text, or it runs out in the run of the text. -/
def NestedExhausts (line : Nat) : (depth : Nat) → Value → Stack → Prop
  | depth + 4, .text t, s =>
      isExecutable t = true ∧ (reach depth t s = .error .tooDeep ∨
        (∃ count, reach depth t s = .ok count) ∧
          Exhausts depth (runNested line depth) (NestedExhausts line depth) t s)
  | _ + 4, _, _ => False
  | _, _, _ => True

/-! ## It ends the run -/

section Words

variable {run : Text → Stack → Outcome} {token : Text} {rest : List Text} {fault : Fault}

theorem runWords_cons_of_fault (hfault : (run token s).fault = some fault) :
    runWords run (token :: rest) s = run token s := by
  rw [runWords, Outcome.andThen, hfault]

theorem runWords_cons_of_returns (hreturns : (run token s).fault = none) :
    (runWords run (token :: rest) s).fault = (runWords run rest (run token s).stack).fault ∧
      (runWords run (token :: rest) s).stack =
        (runWords run rest (run token s).stack).stack := by
  rw [runWords, Outcome.andThen, hreturns]
  exact ⟨rfl, rfl⟩

/-- A fault ends a run of words exactly if the run comes to a word that ends with it. -/
theorem runWords_fault_iff {tokens : List Text} :
    (runWords run tokens s).fault = some fault ↔
      ∃ done token later, tokens = done ++ token :: later ∧ (runWords run done s).fault = none ∧
        (run token (runWords run done s).stack).fault = some fault := by
  induction tokens generalizing s with
  | nil => simp [runWords]
  | cons first rest ih =>
      cases hfirst : (run first s).fault with
      | some early =>
          rw [runWords_cons_of_fault hfirst]
          constructor
          · exact fun hfault => ⟨[], first, rest, rfl, rfl, hfault⟩
          · rintro ⟨_ | ⟨_, done⟩, token, later, hsplit, hdone, hfault⟩
            · cases hsplit
              exact hfault
            · -- no word is come to behind one that failed
              cases hsplit
              rw [runWords_cons_of_fault hfirst, hfirst] at hdone
              cases hdone
      | none =>
          have hnext {words : List Text} :
              (runWords run (first :: words) s).fault =
                  (runWords run words (run first s).stack).fault ∧
                (runWords run (first :: words) s).stack =
                  (runWords run words (run first s).stack).stack :=
            runWords_cons_of_returns hfirst
          rw [hnext.1, ih]
          constructor
          · rintro ⟨done, token, later, rfl, hdone, hfault⟩
            refine ⟨first :: done, token, later, rfl, hnext.1.trans hdone, ?_⟩
            rw [hnext.2]
            exact hfault
          · rintro ⟨_ | ⟨_, done⟩, token, later, hsplit, hdone, hfault⟩
            · cases hsplit
              rw [runWords, hfirst] at hfault
              cases hfault
            · cases hsplit
              rw [hnext.2] at hfault
              exact ⟨done, token, later, rfl, hnext.1.symm.trans hdone, hfault⟩

end Words

theorem runBodyWord_tooDeep_iff {text token : Text} {parameters : List Value} :
    (runBodyWord nested text parameters token s).fault = some .tooDeep ↔
      (Lambda.parameterIndex? token = .ok none ∧ token ≠ Lambda.selfWord) ∧
        (nested (.text token) s).fault = some .tooDeep := by
  unfold runBodyWord
  cases hindex : Lambda.parameterIndex? token with
  | error fault =>
      -- only a reference with too many digits is a fault
      have hfault : fault ≠ .tooDeep := by
        rintro rfl
        unfold Lambda.parameterIndex? at hindex
        split at hindex
        · cases hindex
        · split at hindex <;> cases hindex
      simp [hfault]
  | ok found =>
      cases found with
      | some index => simp
      | none =>
          by_cases hself : token = Lambda.selfWord
          · simp [hself]
          · simp [hself]

theorem read_ne_tooDeep : Lambda.read t ≠ .error .tooDeep := by
  unfold Lambda.read
  split
  · nofun
  split
  · nofun
  · simp only
    split
    · nofun
    split <;> nofun

/-- Depth runs out in the run of a text exactly if that is the fault the run ends with. -/
theorem exhausts_iff (hnested : ∀ v s, exhausts v s ↔ (nested v s).fault = some .tooDeep)
    (hexecutable : isExecutable t = true) :
    Exhausts depth nested exhausts t s ↔ (runText depth nested t s).fault = some .tooDeep := by
  constructor
  · intro h
    cases h with
    | operator hkind heval hfault =>
        rw [runText_of_operator hexecutable hkind heval]
        exact hfault
    | eval hvalue =>
        rw [runText_of_eval hexecutable (by decide) rfl]
        exact (hnested _ _).mp hvalue
    | body hkind hread hbind hbody hdone hword hvalue =>
        rw [runText_of_lambda hexecutable hkind, call, hread]
        simp only [Outcome.after, hbind]
        rw [runWords_fault_iff]
        refine ⟨_, _, _, hbody, hdone, ?_⟩
        exact runBodyWord_tooDeep_iff.mpr ⟨hword, (hnested _ _).mp hvalue⟩
  · intro hfault
    obtain ⟨_, hkind | hkind⟩ := isExecutable_eq_true.mp hexecutable
    · by_cases heval : t = evalWord
      · rw [runText_of_eval hexecutable hkind heval] at hfault
        subst heval
        cases s with
        | nil => cases hfault
        | cons v rest => exact .eval ((hnested v rest).mpr hfault)
      · rw [runText_of_operator hexecutable hkind heval] at hfault
        exact .operator hkind heval hfault
    · rw [runText_of_lambda hexecutable hkind, call] at hfault
      cases hread : Lambda.read t with
      | error fault =>
          rw [hread] at hfault
          cases hfault
          exact absurd hread read_ne_tooDeep
      | ok lambda =>
          rw [hread] at hfault
          simp only [Outcome.after] at hfault
          cases hbind : Lambda.bind? lambda.parameters s with
          | none =>
              rw [hbind] at hfault
              cases hfault
          | some bound =>
              obtain ⟨parameters, rest⟩ := bound
              rw [hbind] at hfault
              simp only at hfault
              obtain ⟨done, token, later, hbody, hdone, hlast⟩ := runWords_fault_iff.mp hfault
              obtain ⟨hword, hvalue⟩ := runBodyWord_tooDeep_iff.mp hlast
              exact .body hkind hread hbind hbody hdone hword ((hnested _ _).mpr hvalue)

/-- A guard changes nothing but the stack. -/
theorem attempt_keeps {o : Outcome} (hattempt : attempt depth nested t s = .ok o) :
    o.fault = (runText depth nested t s).fault ∧ o.events = (runText depth nested t s).events := by
  cases hexecutable : isExecutable t with
  | false =>
      rw [attempt_of_not_executable hexecutable, Except.ok.injEq] at hattempt
      rw [hattempt]
      exact ⟨rfl, rfl⟩
  | true =>
      rw [attempt_of_executable hexecutable] at hattempt
      cases hreach : reach depth t s with
      | error fault =>
          rw [hreach] at hattempt
          cases hattempt
      | ok count =>
          rw [hreach] at hattempt
          cases hran : (runText depth nested t s).fault <;> rw [hran] at hattempt <;>
            simp only [Except.ok.injEq] at hattempt <;> subst hattempt <;> exact ⟨hran, rfl⟩

/-- A nested guard passes on that depth ran out, and nothing makes up for it. -/
theorem nestedExhausts_iff (line depth : Nat) (v : Value) (s : Stack) :
    NestedExhausts line depth v s ↔ (runNested line depth v s).fault = some .tooDeep := by
  induction depth using Nat.strongRecOn generalizing v s with
  | ind depth ih =>
    match depth, v with
    | 0, _ | 1, _ | 2, _ | 3, _ => simp [NestedExhausts, runNested]
    | depth + 4, .bool _ | depth + 4, .null | depth + 4, .number _ | depth + 4, .list _
    | depth + 4, .object _ => simp [NestedExhausts, runNested]
    | depth + 4, .text t =>
        rw [NestedExhausts, runNested, runGuarded]
        cases hexecutable : isExecutable t with
        | false =>
            obtain ⟨pushed, hpushed⟩ := runText_of_not_executable hexecutable
            simp [attempt_of_not_executable hexecutable, hpushed, absorb]
        | true =>
            rw [exhausts_iff (ih depth (by omega)) hexecutable]
            cases hreach : reach depth t s with
            | error fault => simp [attempt_of_executable hexecutable, hreach]
            | ok count =>
                obtain ⟨o, ho⟩ : ∃ o, attempt depth (runNested line depth) t s = .ok o := by
                  rw [attempt_of_executable hexecutable, hreach]
                  simp only
                  split <;> exact ⟨_, rfl⟩
                rw [ho, ← (attempt_keeps ho).1]
                simp only [true_and, reduceCtorEq, false_or, Except.ok.injEq, exists_eq']
                split
                next hdeep => simp [hdeep]
                next hother =>
                  -- a fault of another kind is recorded and leaves none
                  simp [hother, absorb_fault]

/-! ## It is never recorded below -/

/-- No step that was recorded on the way failed because depth ran out. -/
def IsShallow (o : Outcome) : Prop :=
  ∀ step ∈ o.events.filterMap Event.step?, step.fault ≠ some .tooDeep

theorem isShallow_of_no_events {s : Stack} {fault : Option Fault} : IsShallow ⟨s, [], fault⟩ := by
  simp [IsShallow]

theorem IsShallow.andThen {o : Outcome} {next : Stack → Outcome} (ho : IsShallow o)
    (hnext : ∀ s, IsShallow (next s)) : IsShallow (o.andThen next) := by
  unfold Outcome.andThen
  split
  · exact ho
  · intro step hstep
    rw [List.filterMap_append] at hstep
    rcases List.mem_append.mp hstep with h | h
    · exact ho step h
    · exact hnext _ step h

/-- A guard records no failure but one of another kind. -/
theorem IsShallow.absorb {o : Outcome} (ho : IsShallow o) (hfault : o.fault ≠ some .tooDeep)
    (line : Nat) (t : Text) : IsShallow (absorb line t o) := by
  unfold Evaluation.absorb
  split
  · exact ho
  next fault h =>
    intro step hstep
    rw [List.filterMap_append] at hstep
    rcases List.mem_append.mp hstep with hmem | hmem
    · exact ho step hmem
    · obtain rfl := List.mem_singleton.mp hmem
      rwa [h] at hfault

theorem runWords_isShallow {run : Text → Stack → Outcome}
    (hrun : ∀ token s, IsShallow (run token s)) (tokens : List Text) (s : Stack) :
    IsShallow (runWords run tokens s) := by
  induction tokens generalizing s with
  | nil => exact isShallow_of_no_events
  | cons token rest ih => exact (hrun token s).andThen ih

section Nested

variable (hnested : ∀ v s, IsShallow (nested v s))

include hnested

theorem runBodyWord_isShallow (text : Text) (parameters : List Value) (token : Text) (s : Stack) :
    IsShallow (runBodyWord nested text parameters token s) := by
  unfold runBodyWord
  split
  · exact isShallow_of_no_events
  · exact isShallow_of_no_events
  · split
    · exact isShallow_of_no_events
    · exact hnested _ _

theorem call_isShallow (text : Text) (s : Stack) : IsShallow (call nested text s) := by
  unfold call
  split
  · exact isShallow_of_no_events
  next lambda _ =>
    simp only [Outcome.after]
    split
    · simp [IsShallow, Event.step?]
    next parameters rest _ =>
      -- that the lambda was read is no step
      have hbody := runWords_isShallow (runBodyWord_isShallow hnested text parameters)
        lambda.body rest
      intro step hstep
      rw [List.filterMap_cons] at hstep
      exact hbody step hstep

theorem runText_isShallow (depth : Nat) (t : Text) (s : Stack) :
    IsShallow (runText depth nested t s) := by
  cases hexecutable : isExecutable t with
  | false =>
      obtain ⟨pushed, hpushed⟩ := runText_of_not_executable hexecutable
      rw [hpushed]
      exact isShallow_of_no_events
  | true =>
      obtain ⟨_, hkind | hkind⟩ := isExecutable_eq_true.mp hexecutable
      · by_cases heval : t = evalWord
        · rw [runText_of_eval hexecutable hkind heval]
          cases s with
          | nil => exact isShallow_of_no_events
          | cons v rest => exact hnested v rest
        · rw [runText_of_operator hexecutable hkind heval]
          exact isShallow_of_no_events
      · rw [runText_of_lambda hexecutable hkind]
        exact call_isShallow hnested t s

theorem attempt_isShallow {o : Outcome} (hattempt : attempt depth nested t s = .ok o) :
    IsShallow o := by
  have hrun := runText_isShallow hnested depth t s
  rw [IsShallow, (attempt_keeps hattempt).2]
  exact hrun

end Nested

/-- At any depth, no nested step is recorded as failed because depth ran out. -/
theorem runNested_isShallow (line depth : Nat) (v : Value) (s : Stack) :
    IsShallow (runNested line depth v s) := by
  induction depth using Nat.strongRecOn generalizing v s with
  | ind depth ih =>
    match depth, v with
    | 0, _ | 1, _ | 2, _ | 3, _ => exact isShallow_of_no_events
    | depth + 4, .bool _ | depth + 4, .null | depth + 4, .number _ | depth + 4, .list _
    | depth + 4, .object _ => exact isShallow_of_no_events
    | depth + 4, .text t =>
        rw [runNested, runGuarded]
        cases hattempt : attempt depth (runNested line depth) t s with
        | error fault => exact isShallow_of_no_events
        | ok o =>
            have ho := attempt_isShallow (ih depth (by omega)) hattempt
            simp only
            split
            next => exact ho
            next hother => exact ho.absorb hother line t

end Evaluation

end StackScript
