import StackScript.Proofs.Session.Inlining

/-! # Words that succeed

What a run of words does is put together from what each word does. A word is described by the
stack that it reaches from a given one, without failure and with no word skipped within it.
-/

namespace StackScript

/-- The run ends with stack `s`. It does not fail, and no word is skipped on the way. -/
structure Outcome.Reaches (o : Outcome) (s : Stack) : Prop where
  stack : o.stack = s
  fault : o.fault = none
  clean : o.events.filterMap Event.step? = []

namespace Outcome.Reaches

variable {o : Outcome} {s s' : Stack}

theorem of_stack (s : Stack) : Reaches { stack := s } s := ⟨rfl, rfl, rfl⟩

theorem andThen {next : Stack → Outcome} (ho : o.Reaches s) (hnext : (next s).Reaches s') :
    (o.andThen next).Reaches s' := by
  rw [Outcome.andThen, ho.fault, ho.stack]
  refine ⟨hnext.stack, hnext.fault, ?_⟩
  rw [List.filterMap_append, ho.clean, hnext.clean, List.append_nil]

theorem after (ho : o.Reaches s) {event : Event} (hevent : event.step? = none) :
    (o.after event).Reaches s := by
  refine ⟨ho.stack, ho.fault, ?_⟩
  rw [Outcome.after, List.filterMap_cons_none hevent]
  exact ho.clean

end Outcome.Reaches

namespace Operator

variable {depth : Nat} {op : Operator} {s : Stack}

/-- An operator that succeeds can tell its reach. -/
theorem reach_of_apply (happly : (op.apply depth s).fault = none) :
    ∃ count, op.reach depth s = .ok count := by
  have hcounted {move : Nat → Stack → Stack} (hroll : (rollBy depth move s).fault = none) :
      ∃ count, countedReach depth s = .ok count := by
    match s with
    | [] => exact ⟨0, rfl⟩
    | top :: rest =>
        rw [rollBy_cons] at hroll
        rw [countedReach]
        cases htop : top.toInt depth with
        | error fault =>
            rw [htop] at hroll
            cases hroll
        | ok count => exact ⟨_, rfl⟩
  cases op with
  | roll => exact hcounted happly
  | rollDown => exact hcounted happly
  | _ => exact ⟨_, rfl⟩

theorem kind_name (op : Operator) : Text.kind op.name.toList = .operator :=
  Text.kind_of_hasForm (isOperatorName_iff.mpr (Or.inl ⟨op, rfl⟩)) (by decide)

theorem head?_name (op : Operator) : op.name.toList.head? ≠ some Evaluation.quoteMark := by
  cases op with
  | arithmetic operation => cases operation <;> decide
  | compare relation => cases relation <;> decide
  | _ => decide

theorem texts_name (op : Operator) : Token.texts op.name.toList = [op.name.toList] := by
  cases op with
  | arithmetic operation => cases operation <;> decide +kernel
  | compare relation => cases relation <;> decide +kernel
  | _ => decide +kernel

end Operator

namespace Evaluation

variable {depth line : Nat} {nested : Value → Stack → Outcome} {t text token : Text}
  {s s' : Stack}

/-! ## Runs of words -/

theorem runWords_reaches_cons {run : Text → Stack → Outcome} {rest : List Text} {middle : Stack}
    (hfirst : (run token s).Reaches middle) (hrest : (runWords run rest middle).Reaches s') :
    (runWords run (token :: rest) s).Reaches s' :=
  hfirst.andThen hrest

/-- A reference pushes the value of its parameter, or itself if there is none. -/
theorem runBodyWord_reaches_reference {index : Nat} (parameters : List Value)
    (hindex : Lambda.parameterIndex? token = .ok (some index)) :
    (runBodyWord nested text parameters token s).Reaches
      (parameters.getD index (.text token) :: s) := by
  rw [runBodyWord, hindex]
  exact .of_stack _

theorem runBodyWord_reaches_parameter {parameters : List Value} {index : Nat} {v : Value}
    (hindex : Lambda.parameterIndex? token = .ok (some index))
    (hvalue : parameters[index]? = some v) :
    (runBodyWord nested text parameters token s).Reaches (v :: s) := by
  have hget : parameters.getD index (.text token) = v := by
    rw [List.getD_eq_getElem?_getD, hvalue, Option.getD_some]
  exact hget ▸ runBodyWord_reaches_reference parameters hindex

theorem runBodyWord_reaches_self {parameters : List Value} :
    (runBodyWord nested text parameters Lambda.selfWord s).Reaches (.text text :: s) :=
  .of_stack _

theorem runBodyWord_reaches_nested {parameters : List Value} (hproper : IsProper token)
    (hnested : (nested (.text token) s).Reaches s') :
    (runBodyWord nested text parameters token s).Reaches s' := by
  rw [runBodyWord_of_isProper hproper]
  exact hnested

theorem call_reaches {lambda : Lambda} {parameters : List Value} {rest : Stack}
    (hread : Lambda.read text = .ok lambda)
    (hbind : Lambda.bind? lambda.parameters s = some (parameters, rest))
    (hbody : (runWords (runBodyWord nested text parameters) lambda.body rest).Reaches s') :
    (call nested text s).Reaches s' := by
  rw [call, hread]
  simp only [hbind]
  exact hbody.after rfl

/-- Where values are missing, a lambda changes nothing. -/
theorem call_reaches_starved {lambda : Lambda} (hread : Lambda.read text = .ok lambda)
    (hstarved : s.length < lambda.parameters) : (call nested text s).Reaches s := by
  rw [call, hread]
  simp only [Lambda.bind?, if_pos hstarved]
  exact ⟨rfl, rfl, rfl⟩

/-! ## Operators by their names -/

theorem isExecutable_name (op : Operator) : isExecutable op.name.toList = true :=
  isExecutable_eq_true.mpr ⟨op.head?_name, Or.inl op.kind_name⟩

theorem reach_name (op : Operator) (depth : Nat) (s : Stack) :
    reach depth op.name.toList s = op.reach depth s := by
  rw [reach, op.kind_name, Operator.reachNamed, Operator.ofName?_name]
  rfl

theorem runText_name (op : Operator) (depth : Nat) (nested : Value → Stack → Outcome)
    (s : Stack) :
    runText depth nested op.name.toList s =
      { stack := (op.apply depth s).stack, fault := (op.apply depth s).fault } := by
  have heval : op.name.toList ≠ evalWord := by
    intro h
    have hname := Operator.ofName?_name op
    rw [h, ofName?_evalWord] at hname
    cases hname
  rw [runText_of_operator (isExecutable_name op) op.kind_name heval, Operator.applyNamed,
    Operator.ofName?_name]

/-! ## Nested words -/

/-- The guard does nothing about a text that succeeds and can tell its reach. -/
theorem attempt_of_reaches {count : Nat} (hreach : reach depth t s = .ok count)
    (hrun : (runText depth nested t s).Reaches s') :
    attempt depth nested t s = .ok (runText depth nested t s) := by
  cases hexecutable : isExecutable t with
  | false => exact attempt_of_not_executable hexecutable
  | true =>
      rw [attempt_of_executable hexecutable, hreach]
      simp only [hrun.fault]

theorem runNested_reaches {count : Nat} (hreach : reach depth t s = .ok count)
    (hrun : (runText depth (runNested line depth) t s).Reaches s') :
    (runNested line (depth + 4) (.text t) s).Reaches s' := by
  rw [runNested, runGuarded, attempt_of_reaches hreach hrun]
  simpa [absorb, hrun.fault] using hrun

/-- A plain value is pushed. -/
theorem runNested_reaches_plain (hquote : t.head? ≠ some quoteMark)
    (hplain : isExecutable t = false) :
    (runNested line (depth + 4) (.text t) s).Reaches (.text t :: s) := by
  rw [runNested, runGuarded, attempt_of_not_executable hplain, runText_of_plain hquote hplain]
  exact .of_stack _

/-- A quoted word is pushed without its mark. -/
theorem runNested_reaches_quoted (word : Text) :
    (runNested line (depth + 4) (.text (quoteMark :: word)) s).Reaches (.text word :: s) := by
  have hplain : isExecutable (quoteMark :: word) = false := by simp [isExecutable]
  rw [runNested, runGuarded, attempt_of_not_executable hplain]
  exact .of_stack _

theorem runNested_reaches_operator (op : Operator) (happly : op.apply depth s = ⟨s', none⟩) :
    (runNested line (depth + 4) (.text op.name.toList) s).Reaches s' := by
  obtain ⟨count, hcount⟩ := Operator.reach_of_apply (congrArg Applied.fault happly)
  refine runNested_reaches ((reach_name op depth s).trans hcount) ?_
  rw [runText_name, happly]
  exact .of_stack _

theorem runNested_reaches_eval {v : Value} (hv : (runNested line depth v s).Reaches s') :
    (runNested line (depth + 4) (.text evalWord) (v :: s)).Reaches s' := by
  have hkind : Text.kind evalWord = .operator := by decide
  have hexecutable : isExecutable evalWord = true := by decide
  have hreach : reach depth evalWord (v :: s) = .ok (v :: s).length := by
    rw [reach, hkind, Operator.reachNamed, ofName?_evalWord]
    rfl
  refine runNested_reaches hreach ?_
  rw [runText_of_eval hexecutable hkind rfl]
  exact hv

/-- A lambda reaches what its call reaches, and its reach can be told. -/
theorem runText_reaches_lambda (depth : Nat) (hquote : t.head? ≠ some quoteMark)
    (hkind : Text.kind t = .lambda) (hcall : (call nested t s).Reaches s') :
    reach depth t s = .ok s.length ∧ (runText depth nested t s).Reaches s' := by
  refine ⟨by rw [reach, hkind]; rfl, ?_⟩
  rw [runText_of_lambda (isExecutable_eq_true.mpr ⟨hquote, Or.inr hkind⟩) hkind]
  exact hcall

end Evaluation

namespace Session

open Evaluation

/-- The line is a single word that succeeds and leaves the stack `s`, and nothing is skipped. -/
def RunsTo (session : Session) (line : Text) (s : Stack) : Prop :=
  ∃ after, session.runLine line = (after, .ok [⟨line, session.lineCount + 1, none⟩]) ∧
    after.stack = s ∧ after.skipped = session.skipped

variable {session : Session} {line : Text} {s : Stack}

theorem RunsTo.stack_eq (hruns : session.RunsTo line s) : (session.runLine line).1.stack = s := by
  obtain ⟨after, hrun, hstack, _⟩ := hruns
  rw [hrun, hstack]

theorem runsTo_of_reaches {o : Outcome} (htexts : Token.texts line = [line])
    (hattempt : attemptWord session.limit (session.lineCount + 1) line session.stack = .ok o)
    (hreaches : o.Reaches s) : session.RunsTo line s := by
  have hline := runLine_single htexts hattempt
  rw [absorb, hreaches.fault] at hline
  refine ⟨(session.beginLine line).advance o, hline, hreaches.stack, ?_⟩
  rw [skipped_advance, skipped_beginLine, hreaches.clean, List.append_nil]

theorem runsTo_of_runText {count : Nat} (htexts : Token.texts line = [line])
    (hproper : IsProper line) (hreach : reach session.limit line session.stack = .ok count)
    (hrun : (runText session.limit (runNested (session.lineCount + 1) session.limit) line
      session.stack).Reaches s) : session.RunsTo line s := by
  have hattempt := (attemptWord_of_isProper hproper session.limit).trans
    (attempt_of_reaches hreach hrun)
  exact runsTo_of_reaches htexts hattempt hrun

/-- A line of a single operator runs as the operator does. -/
theorem runsTo_operator (op : Operator)
    (happly : op.apply session.limit session.stack = ⟨s, none⟩) :
    session.RunsTo op.name.toList s := by
  obtain ⟨count, hcount⟩ := Operator.reach_of_apply (congrArg Applied.fault happly)
  refine runsTo_of_runText op.texts_name (isProper_of_isExecutable (isExecutable_name op))
    ((reach_name op session.limit session.stack).trans hcount) ?_
  rw [runText_name, happly]
  exact .of_stack s

/-- An operator that fails leaves the stack as it is. -/
theorem stack_runLine_of_fault (op : Operator) {count : Nat}
    (hreach : op.reach session.limit session.stack = .ok count)
    (hfails : (op.apply session.limit session.stack).fault ≠ none) :
    (session.runLine op.name.toList).1.stack = session.stack := by
  obtain ⟨fault, hfault⟩ := Option.ne_none_iff_exists'.mp hfails
  obtain ⟨tried, htried, hsame, -⟩ := attemptWord_of_reach (session.lineCount + 1)
    (isExecutable_name op) ((reach_name op session.limit session.stack).trans hreach)
  rw [runText_name] at hsame
  rw [runLine_single op.texts_name htried, advance_stack, absorb_stack]
  exact attemptWord_stack_of_fault htried (hsame.trans hfault)

/-- A line of a single lambda runs as a call of the lambda. -/
theorem runsTo_lambda (htexts : Token.texts line = [line]) (hquote : line.head? ≠ some quoteMark)
    (hkind : Text.kind line = .lambda)
    (hcall : (Evaluation.call (runNested (session.lineCount + 1) session.limit) line
      session.stack).Reaches s) :
    session.RunsTo line s := by
  have hproper : IsProper line := Or.inr (by rw [hkind]; decide)
  obtain ⟨hreach, hrun⟩ := runText_reaches_lambda session.limit hquote hkind hcall
  exact runsTo_of_runText htexts hproper hreach hrun

theorem runLine_reaches_lambda (htexts : Token.texts line = [line])
    (hquote : line.head? ≠ some quoteMark) (hkind : Text.kind line = .lambda)
    (hcall : (Evaluation.call (runNested (session.lineCount + 1) session.limit) line
      session.stack).Reaches s) :
    ∃ after, session.runLine line = (after, .ok [⟨line, session.lineCount + 1, none⟩]) ∧
      after.stack = s ∧ session.newlySkipped after = [] := by
  obtain ⟨after, hrun, hstack, hskipped⟩ := runsTo_lambda htexts hquote hkind hcall
  exact ⟨after, hrun, hstack, newlySkipped_of_append (by rw [hskipped, List.append_nil])⟩

end Session

end StackScript
