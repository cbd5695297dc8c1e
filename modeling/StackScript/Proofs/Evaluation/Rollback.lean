import StackScript.Evaluation
import StackScript.Proofs.Operator.Locality

/-! # Failing words leave no trace on the stack

A word that fails under its guard leaves the stack as it found it, however far it got. At the
top of a line and nested at any depth the guard is the same; what differs is only who records
the failure.
-/

namespace StackScript.Evaluation

variable {depth line : Nat} {nested : Value → Stack → Outcome} {t : Text} {s : Stack}

/-! ## What running a text does -/

theorem isExecutable_eq_true :
    isExecutable t = true ↔
      t.head? ≠ some quoteMark ∧ (Text.kind t = .operator ∨ Text.kind t = .lambda) := by
  simp [isExecutable]

theorem runText_of_kind (hquote : t.head? ≠ some quoteMark) :
    runText depth nested t s =
      match Text.kind t with
      | .lambda => call nested t s
      | .operator =>
          if t == evalWord then evalTop nested s
          else ⟨(Operator.applyNamed depth t s).stack, [], (Operator.applyNamed depth t s).fault⟩
      | _ => { stack := .text t :: s } := by
  unfold runText
  split
  next word => exact absurd rfl hquote
  next => rfl

/-- Plain values are pushed as they are. -/
theorem runText_of_plain (hquote : t.head? ≠ some quoteMark) (hplain : isExecutable t = false) :
    runText depth nested t s = { stack := .text t :: s } := by
  rw [runText_of_kind hquote]
  cases hkind : Text.kind t with
  | operator => simp [isExecutable, hquote, hkind] at hplain
  | lambda => simp [isExecutable, hquote, hkind] at hplain
  | _ => rfl

/-- A text that is not executable pushes a text, whatever the depth and the stack. -/
theorem runText_of_not_executable (hplain : isExecutable t = false) :
    ∃ pushed : Text, ∀ depth nested s,
      runText depth nested t s = { stack := .text pushed :: s } := by
  by_cases hquote : t.head? = some quoteMark
  · cases t with
    | nil => simp at hquote
    | cons c word =>
        simp only [List.head?_cons, Option.some.injEq] at hquote
        subst hquote
        exact ⟨word, fun _ _ _ => rfl⟩
  · exact ⟨t, fun _ _ _ => runText_of_plain hquote hplain⟩

theorem runText_of_lambda (hexecutable : isExecutable t = true) (hkind : Text.kind t = .lambda) :
    runText depth nested t s = call nested t s := by
  rw [runText_of_kind (isExecutable_eq_true.mp hexecutable).1, hkind]

theorem runText_of_eval (hexecutable : isExecutable t = true) (hkind : Text.kind t = .operator)
    (heval : t = evalWord) : runText depth nested t s = evalTop nested s := by
  rw [runText_of_kind (isExecutable_eq_true.mp hexecutable).1, hkind]
  simp [heval]

theorem runText_of_operator (hexecutable : isExecutable t = true)
    (hkind : Text.kind t = .operator) (heval : t ≠ evalWord) :
    runText depth nested t s =
      ⟨(Operator.applyNamed depth t s).stack, [], (Operator.applyNamed depth t s).fault⟩ := by
  rw [runText_of_kind (isExecutable_eq_true.mp hexecutable).1, hkind]
  simp [heval]

/-! ## Putting slots back -/

/-- If the slots below the saved ones are still at the bottom, nothing is lost. -/
theorem restore_eq {count : Nat} {before after : Stack}
    (hsuffix : before.drop count <:+ after) : restore count before after = before := by
  obtain ⟨above, rfl⟩ := hsuffix
  have hlength : (above ++ before.drop count).length - (before.length - count) = above.length := by
    rw [List.length_append, List.length_drop]
    omega
  rw [restore, hlength, List.drop_left, List.take_append_drop]

theorem ofName?_evalWord : Operator.ofName? evalWord = none := by decide

/-- What lies below the reach of a text is still there once it was run. -/
theorem drop_reach_suffix {count : Nat} (hexecutable : isExecutable t = true)
    (hreach : reach depth t s = .ok count) :
    s.drop count <:+ (runText depth nested t s).stack := by
  have hall (h : s.length = count) : s.drop count <:+ (runText depth nested t s).stack := by
    subst h
    rw [List.drop_length]
    exact List.nil_suffix
  obtain ⟨_, hkind | hkind⟩ := isExecutable_eq_true.mp hexecutable
  · simp only [reach, hkind, beq_self_eq_true, if_true, Operator.reachNamed] at hreach
    cases hop : Operator.ofName? t with
    | none =>
        rw [hop] at hreach
        exact hall (Except.ok.inj hreach)
    | some op =>
        rw [hop] at hreach
        -- `EVAL` is in no table: like a lambda it reaches the whole stack
        have heval : t ≠ evalWord := by
          rintro rfl
          rw [ofName?_evalWord] at hop
          cases hop
        rw [runText_of_operator hexecutable hkind heval]
        simp only [Operator.applyNamed, hop]
        exact Operator.drop_reach_suffix hreach
  · simp only [reach, hkind] at hreach
    exact hall (Except.ok.inj hreach)

/-! ## Guarded texts -/

theorem attempt_of_not_executable (hplain : isExecutable t = false) :
    attempt depth nested t s = .ok (runText depth nested t s) := by
  simp [attempt, hplain]
  rfl

theorem attempt_of_executable (hexecutable : isExecutable t = true) :
    attempt depth nested t s =
      match reach depth t s with
      | .error fault => .error fault
      | .ok count =>
          match (runText depth nested t s).fault with
          | none => .ok (runText depth nested t s)
          | some _ =>
              .ok { runText depth nested t s with
                stack := restore count s (runText depth nested t s).stack } := by
  simp only [attempt, hexecutable, if_true, bind, Except.bind]
  cases reach depth t s with
  | error fault => rfl
  | ok count =>
      cases (runText depth nested t s).fault <;> rfl

/-- A guarded text that fails leaves the stack as it was. -/
theorem attempt_stack_of_fault {o : Outcome} {fault : Fault}
    (hattempt : attempt depth nested t s = .ok o) (hfault : o.fault = some fault) :
    o.stack = s := by
  cases hexecutable : isExecutable t with
  | false =>
      obtain ⟨pushed, hpushed⟩ := runText_of_not_executable hexecutable
      rw [attempt_of_not_executable hexecutable, Except.ok.injEq, hpushed] at hattempt
      subst hattempt
      cases hfault
  | true =>
      rw [attempt_of_executable hexecutable] at hattempt
      cases hreach : reach depth t s with
      | error fault =>
          rw [hreach] at hattempt
          cases hattempt
      | ok count =>
          rw [hreach] at hattempt
          cases hran : (runText depth nested t s).fault with
          | none =>
              simp only [hran, Except.ok.injEq] at hattempt
              subst hattempt
              rw [hran] at hfault
              cases hfault
          | some ran =>
              simp only [hran, Except.ok.injEq] at hattempt
              subst hattempt
              exact restore_eq (drop_reach_suffix hexecutable hreach)

/-- If evaluation goes on behind a nested text, then either its guarded run succeeded and
nothing was recorded for it, or it failed, the stack is as it was, and what was recorded last
is its own failure. -/
theorem runNested_returns
    (hreturns : (runNested line (depth + 4) (.text t) s).fault = none) :
    attempt depth (runNested line depth) t s = .ok (runNested line (depth + 4) (.text t) s) ∨
      ∃ events fault,
        attempt depth (runNested line depth) t s = .ok ⟨s, events, some fault⟩ ∧
          runNested line (depth + 4) (.text t) s =
            ⟨s, events ++ [.skipped ⟨t, line, some fault⟩], none⟩ := by
  rw [runNested, runGuarded] at hreturns ⊢
  cases hattempt : attempt depth (runNested line depth) t s with
  | error fault =>
      rw [hattempt] at hreturns
      cases hreturns
  | ok o =>
      rw [hattempt] at hreturns
      simp only at hreturns ⊢
      cases hfault : o.fault with
      | none =>
          left
          simp [absorb, hfault]
      | some fault =>
          right
          have hstack := attempt_stack_of_fault hattempt hfault
          -- the failure to nest any deeper would have been passed on
          have hdeep : o.fault ≠ some .tooDeep := by
            intro hdeep
            rw [if_pos hdeep, hdeep] at hreturns
            cases hreturns
          refine ⟨o.events, fault, ?_, ?_⟩
          · rw [← hstack, ← hfault]
          · rw [← hfault, if_neg hdeep, absorb, hfault, hstack]

end StackScript.Evaluation
