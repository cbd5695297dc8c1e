import StackScript.Proofs.Simulation.Evaluation
import StackScript.Proofs.Value.Interchange

/-! # Raw text and computed values are interchangeable

Sessions whose stacks hold, slot by slot, equal values or a plain value and its written form
cannot be told apart by running a line: the results, the skipped steps and the written stack
are the same, and the stacks stay so related. The exception is a run that comes to the limit
of nesting, which the one may reach before the other.
-/

namespace StackScript

open Evaluation

/-! ## Values -/

theorem Value.IsPlain.isInert {v : Value} (hplain : v.IsPlain) : v.IsInert := by
  rintro t rfl
  cases hplain

theorem Value.Writes.isInert {v : Value} {t : Text} (heligible : v.IsEligible)
    (hwrites : v.Writes t) : Value.IsInert (.text t) := by
  rintro _ ⟨⟩
  obtain ⟨c, rest, rfl, _, _, hquote, _⟩ := (heligible.plain.hasEnds hwrites).first
  have hfirst : (c :: rest).head? ≠ some quoteMark := by simpa [quoteMark] using hquote
  refine ⟨hfirst, ?_⟩
  rw [Bool.eq_false_iff, ne_eq, isExecutable_eq_true,
    heligible.plain.kind_eq heligible.uniform hwrites]
  rintro ⟨_, hkind⟩
  cases heligible.plain with
  | int => rcases hkind with h | h <;> cases h
  | bool => rcases hkind with h | h <;> cases h
  | list =>
      simp only [Value.kind] at hkind
      split at hkind <;> rcases hkind with h | h <;> cases h

/-- Interchangeable values serve alike and run alike, up to the limit of nesting. -/
theorem interchange_interchangeable : Interchange True Value.Interchangeable where
  refl := .same
  serves _ h := h.serves
  inert h := by
    cases h with
    | same => exact Or.inl rfl
    | written heligible hwrites => exact Or.inr ⟨heligible.plain.isInert, hwrites.isInert heligible⟩
    | read heligible hwrites => exact Or.inr ⟨hwrites.isInert heligible, heligible.plain.isInert⟩

/-- Stacks of interchangeable values are written alike. -/
theorem Stack.render_alike {s s' : Stack} (hs : List.Forall₂ Value.Interchangeable s s')
    (d e : Nat) : Alike .tooDeep True Eq (Stack.render d s) (Stack.render e s') := by
  have hrelated := (List.rel_reverse hs).imp fun v w h => h.render (d := d) (e := e)
  exact (Alike.mapM_related hrelated).bindEq fun texts => .refl _

/-! ## Words -/

namespace Session

variable {either : Prop} {V : Value → Value → Prop} {session other : Session}

/-- Running the words never comes to the limit of nesting, neither at the top nor nested. -/
def KeepsDepth (session : Session) (tokens : List Text) : Prop :=
  (session.runWords tokens).2 ≠ .error .tooDeep ∧
    ∀ step ∈ session.newlySkipped (session.runWords tokens).1, step.fault ≠ some .tooDeep

theorem KeepsDepth.head {token : Text} {rest : List Text}
    (hdepth : session.KeepsDepth (token :: rest)) :
    attemptWord session.limit session.lineCount token session.stack ≠ .error .tooDeep := by
  intro hattempt
  have hstep := step_eq_error.mpr hattempt
  apply hdepth.1
  rw [runWords_cons_error hstep]

theorem newlySkipped_cons {token : Text} {rest : List Text} {o : Outcome}
    (hattempt : attemptWord session.limit session.lineCount token session.stack = .ok o) :
    session.newlySkipped (session.runWords (token :: rest)).1 =
      (absorb session.lineCount token o).events.filterMap Event.step? ++
        (session.advance (absorb session.lineCount token o)).newlySkipped
          ((session.advance (absorb session.lineCount token o)).runWords rest).1 := by
  have hstep := step_eq_ok.mpr ⟨o, hattempt, rfl, rfl⟩
  apply newlySkipped_of_append
  rw [runWords_cons_ok hstep, skipped_runWords, skipped_advance, List.append_assoc]

theorem KeepsDepth.outcome {token : Text} {rest : List Text} {o : Outcome}
    (hdepth : session.KeepsDepth (token :: rest))
    (hattempt : attemptWord session.limit session.lineCount token session.stack = .ok o) :
    o.fault ≠ some .tooDeep ∧
      (session.advance (absorb session.lineCount token o)).KeepsDepth rest := by
  have hstep := step_eq_ok.mpr ⟨o, hattempt, rfl, rfl⟩
  obtain ⟨hends, hsteps⟩ := hdepth
  rw [newlySkipped_cons hattempt] at hsteps
  refine ⟨?_, ?_, fun step h => hsteps step (List.mem_append_right _ h)⟩
  · intro hfault
    refine hsteps ⟨token, session.lineCount, some .tooDeep⟩ (List.mem_append_left _ ?_) rfl
    rw [absorb, hfault]
    simp [Event.step?]
  · intro herror
    apply hends
    rw [runWords_cons_ok hstep, herror]
    rfl

/-- From related stacks, words give the same results, skip the same steps and lead to related
stacks again. -/
theorem runWords_related (hV : Interchange either V)
    (hlimit : either ∨ session.limit ≤ other.limit)
    (hline : session.lineCount = other.lineCount)
    (hs : List.Forall₂ V session.stack other.stack) {tokens : List Text}
    (hdepth : session.KeepsDepth tokens) (hdepth' : either → other.KeepsDepth tokens) :
    (session.runWords tokens).2 = (other.runWords tokens).2 ∧
      session.newlySkipped (session.runWords tokens).1 =
        other.newlySkipped (other.runWords tokens).1 ∧
      List.Forall₂ V (session.runWords tokens).1.stack (other.runWords tokens).1.stack := by
  induction tokens generalizing session other with
  | nil => exact ⟨rfl, by rw [runWords_nil, runWords_nil, newlySkipped_self, newlySkipped_self], hs⟩
  | cons token rest ih =>
      have hattempts := attemptWord_alike hV hlimit session.lineCount token hs
      nth_rewrite 2 [hline] at hattempts
      -- neither word is cut short: both end, or both escape with the same fault
      obtain ⟨o, o', ho, ho', hoo'⟩ | ⟨fault, hx, hy⟩ :=
        hattempts.elim hdepth.head fun heither => (hdepth' heither).head
      · obtain ⟨hfault, hrest⟩ := hdepth.outcome ho
        have hother := fun heither => (hdepth' heither).outcome ho'
        cases hoo' with
        | first => exact absurd rfl hfault
        | second heither => exact absurd rfl (hother heither).1
        | @both s₁ s₂ hafter events fault =>
            have hstep := step_eq_ok.mpr ⟨_, ho, rfl, rfl⟩
            have hstep' := step_eq_ok.mpr ⟨_, ho', rfl, rfl⟩
            -- alike outcomes leave the same record, a failure of the word included
            have hevents : (absorb session.lineCount token ⟨s₁, events, fault⟩).events =
                (absorb other.lineCount token ⟨s₂, events, fault⟩).events := by
              rw [hline]
              cases fault <;> rfl
            have hstacks : List.Forall₂ V
                (session.advance (absorb session.lineCount token ⟨s₁, events, fault⟩)).stack
                (other.advance (absorb other.lineCount token ⟨s₂, events, fault⟩)).stack := by
              simpa using hafter
            obtain ⟨hresults, hskipped, hend⟩ :=
              @ih (session.advance (absorb session.lineCount token ⟨s₁, events, fault⟩))
                (other.advance (absorb other.lineCount token ⟨s₂, events, fault⟩)) hlimit hline
                hstacks hrest fun heither => (hother heither).2
            rw [newlySkipped_cons ho, newlySkipped_cons ho', runWords_cons_ok hstep,
              runWords_cons_ok hstep']
            refine ⟨?_, ?_, hend⟩
            · rw [hresults, hline]
            · rw [hskipped, hevents]
      · rw [runWords_cons_error (step_eq_error.mpr hx), runWords_cons_error (step_eq_error.mpr hy)]
        exact ⟨rfl, by rw [newlySkipped_self, newlySkipped_self], hs⟩

/-- A line does the same in two sessions with equal line numbers and stacks that hold, slot by
slot, equal values, or an integer that can be written, a truth value or a list of such, and
its written form. If neither run comes to the limit of nesting, the results or the fault that
ends the line are the same, the same steps are skipped, the stacks are again so related, and
they are written alike, unless one of them is nested too deeply for that. -/
theorem runLine_interchangeable (session other : Session) (line : Text)
    (hline : session.lineCount = other.lineCount)
    (hstack : List.Forall₂ Value.Interchangeable session.stack other.stack)
    (hdepth : (session.beginLine line).KeepsDepth (Token.texts line))
    (hdepth' : (other.beginLine line).KeepsDepth (Token.texts line)) :
    (session.runLine line).2 = (other.runLine line).2 ∧
      session.newlySkipped (session.runLine line).1 =
        other.newlySkipped (other.runLine line).1 ∧
      List.Forall₂ Value.Interchangeable (session.runLine line).1.stack
        (other.runLine line).1.stack ∧
      ∀ depth depth', Stack.render depth (session.runLine line).1.stack ≠ .error .tooDeep →
        Stack.render depth' (other.runLine line).1.stack ≠ .error .tooDeep →
        Stack.render depth (session.runLine line).1.stack =
          Stack.render depth' (other.runLine line).1.stack := by
  have hlines : (session.beginLine line).lineCount = (other.beginLine line).lineCount :=
    congrArg (· + 1) hline
  obtain ⟨hresults, hskipped, hend⟩ := runWords_related interchange_interchangeable
    (Or.inl trivial) hlines hstack hdepth fun _ => hdepth'
  rw [newlySkipped_beginLine, newlySkipped_beginLine] at hskipped
  refine ⟨hresults, hskipped, hend, fun depth depth' hwritten hwritten' => ?_⟩
  obtain ⟨t, u, ht, hu, rfl⟩ | ⟨fault, ht, hu⟩ :=
    (Stack.render_alike hend depth depth').elim hwritten fun _ => hwritten'
  · exact ht.trans hu.symm
  · exact ht.trans hu.symm

theorem runLine_interchangeable_dot :
    let computed : Session := { stack := [.list [.ofInt 1, .ofInt 2]] }
    let raw : Session := { stack := [.text "[1, 2]".toList] }
    let line := "[3, 4] * bogus DUP EVAL +".toList
    (computed.runLine line).2 = (raw.runLine line).2 ∧
      computed.newlySkipped (computed.runLine line).1 = raw.newlySkipped (raw.runLine line).1 := by
  intro computed raw line
  have hplain : Value.IsPlain (.list [.ofInt 1, .ofInt 2]) := by
    refine .list fun v hv => ?_
    rcases List.mem_pair.mp hv with rfl | rfl
    · exact .int (by decide +kernel)
    · exact .int (by decide +kernel)
  have hwrites : Value.Writes (.list [.ofInt 1, .ofInt 2]) "[1, 2]".toList :=
    ⟨2, by decide +kernel⟩
  have hrun := runLine_interchangeable computed raw line rfl
    (.cons (.written ⟨hplain, Or.inl rfl⟩ hwrites) .nil)
    ⟨by decide +kernel, by decide +kernel⟩ ⟨by decide +kernel, by decide +kernel⟩
  exact ⟨hrun.1, hrun.2.1⟩

end Session

end StackScript
