import StackScript.Proofs.Lambda.Written
import StackScript.Proofs.Simulation.Evaluation

/-! # Blocks without parameters

A block without parameters does what its body does at the top of a line. Only words that
nested evaluation treats otherwise tell the two apart: words that are neither operators nor
values, which fail at the top and are pushed, replaced by a parameter or replaced by the
text of the block within it.
-/

namespace StackScript

namespace Lambda

/-- A block without parameters. -/
def block (body : Text) : Text := "\x7b0 | ".toList ++ body ++ ['\x7d']

theorem block_eq_written (body : Text) : block body = written ['0'] body := rfl

theorem read_block (body : Text) :
    Lambda.read (block body) = .ok ⟨block body, 0, Token.texts body⟩ := by
  have hzero : Numeral.IsConvertible ['0'] := by decide
  rw [block_eq_written]
  exact read_written hzero body

/-! ## Words that name no parameter -/

/-- What begins with an `x` and goes on is a literal. -/
theorem kind_of_parameter {rest : Text} (hrest : rest ≠ []) :
    Text.kind ('x' :: rest) = .literal := by
  by_contra hliteral
  have hform : Text.hasForm ('x' :: rest) (Text.kind ('x' :: rest)) = true :=
    (Text.hasForm_iff hliteral).mpr rfl
  by_cases hoperator : Text.kind ('x' :: rest) = .operator
  · rw [hoperator] at hform
    obtain ⟨op, hop⟩ | heval := isOperatorName_iff.mp hform
    · have hfirst : op.name.toList.head? = some 'x' := by rw [← hop]; rfl
      -- one operator begins with an `x`, and that is its whole name
      have hcross : op = .cross := by
        cases op with
        | arithmetic operation =>
            cases operation <;> simp [Operator.name, Arithmetic.name] at hfirst
        | compare relation => cases relation <;> simp [Operator.name, Relation.name] at hfirst
        | cross => rfl
        | _ => simp [Operator.name] at hfirst
      subst hcross
      exact hrest (List.cons.inj hop).2
    · cases heval
  · obtain ⟨c, rest', hc, hgenus⟩ := Text.genus_of_hasForm hform hoperator hliteral
    cases hc
    revert hform hgenus
    generalize Text.kind ('x' :: rest) = k
    intro hform hgenus
    -- by its first code point the text could only be a truth value
    cases k with
    | boolean => simp [Text.hasForm, Text.isBooleanLiteral, Text.lower] at hform
    | _ => cases hgenus

theorem eq_cons_of_parameterDigits? {token digits : Text}
    (hdigits : parameterDigits? token = some digits) :
    ∃ rest, rest ≠ [] ∧ token = 'x' :: rest := by
  unfold parameterDigits? at hdigits
  split at hdigits
  next found hdrop =>
    obtain ⟨more, hmore⟩ := hdrop ▸ Text.dropFinalLineFeed_prefix token
    refine ⟨found ++ more, ?_, hmore.symm⟩
    cases found with
    | nil => simp at hdigits
    | cons => exact List.cons_ne_nil _ _
  next => cases hdigits

end Lambda

namespace Evaluation

/-- A word that is pushed unmarked, or an operator, a value or a lambda. -/
def IsProper (token : Text) : Prop :=
  token.head? = some quoteMark ∨ Text.kind token ≠ .literal

variable {line depth : Nat} {nested : Value → Stack → Outcome} {token text : Text} {s : Stack}

theorem parameterIndex?_of_isProper (hproper : IsProper token) :
    Lambda.parameterIndex? token = .ok none := by
  cases hdigits : Lambda.parameterDigits? token with
  | none => rw [Lambda.parameterIndex?, hdigits]
  | some digits =>
      obtain ⟨rest, hrest, rfl⟩ := Lambda.eq_cons_of_parameterDigits? hdigits
      rcases hproper with hquote | hkind
      · cases hquote
      · exact absurd (Lambda.kind_of_parameter hrest) hkind

theorem runBodyWord_of_isProper (hproper : IsProper token) (parameters : List Value) :
    runBodyWord nested text parameters token s = nested (.text token) s := by
  have hself : token ≠ Lambda.selfWord := by
    rintro rfl
    rcases hproper with hquote | hkind
    · cases hquote
    · exact hkind (by decide)
  rw [runBodyWord, parameterIndex?_of_isProper hproper]
  simp [hself]

theorem attemptWord_of_isProper (hproper : IsProper token) (limit : Nat) :
    attemptWord limit line token s = attempt limit (runNested line limit) token s := by
  rw [attemptWord, if_neg]
  simpa [IsProper, or_iff_not_imp_left] using hproper

/-! ## The body at the top and nested -/

/-- A nested word does what it does at the top, unless it is cut short. -/
theorem runNested_eq_absorb {limit : Nat} {o : Outcome} (hproper : IsProper token)
    (htop : attemptWord limit line token s = .ok o) :
    (runNested line limit (.text token) s).fault = some .tooDeep ∨
      runNested line limit (.text token) s = absorb line token o := by
  rw [attemptWord_of_isProper hproper] at htop
  match limit with
  | 0 | 1 | 2 | 3 => exact Or.inl rfl
  | depth + 4 =>
      -- nested, the word has four calls less: it does the same or is cut short
      have hdepth : False ∨ depth ≤ depth + 4 := Or.inr (by omega)
      have hnested := attempt_alike interchange_eq (runNested_alike interchange_eq line hdepth)
        hdepth token (List.forall₂_refl s)
      rw [htop] at hnested
      rw [runNested, runGuarded]
      revert hnested
      generalize attempt depth (runNested line depth) token s = x
      intro hnested
      cases hnested with
      | first => exact Or.inl rfl
      | ok h =>
          cases h with
          | first => exact Or.inl rfl
          | second h => exact h.elim
          | both hs events fault =>
              rw [List.forall₂_eq_eq_eq] at hs
              subst hs
              simp only
              split
              next hdeep => exact Or.inl hdeep
              next => exact Or.inr rfl

end Evaluation

namespace Session

open Evaluation

/-- The body of a block without parameters does what it does at the top, unless it is cut
short. -/
theorem runWords_nested {session after : Session} {tokens : List Text} {steps : List Step}
    (text : Text) (hproper : ∀ token ∈ tokens, IsProper token)
    (hrun : session.runWords tokens = (after, .ok steps)) :
    let o := Evaluation.runWords (runBodyWord session.nested text []) tokens session.stack
    o.fault = some .tooDeep ∨
      o.fault = none ∧ o.stack = after.stack ∧ after.journal = session.journal ++ o.events := by
  induction tokens generalizing session steps with
  | nil =>
      cases hrun
      exact Or.inr ⟨rfl, rfl, by simp [Evaluation.runWords]⟩
  | cons token rest ih =>
      obtain ⟨middle, result, others, hstep, hothers, rfl⟩ := runWords_cons_eq_ok.mp hrun
      obtain ⟨o, hattempt, rfl, rfl⟩ := step_eq_ok.mp hstep
      have htoken := hproper token List.mem_cons_self
      have hrest := ih (fun t ht => hproper t (List.mem_cons_of_mem token ht)) hothers
      simp only [Evaluation.runWords, runBodyWord_of_isProper htoken]
      -- a word that is cut short ends the body, any other failure is absorbed in place
      obtain hdeep | hsame := runNested_eq_absorb htoken hattempt
      · left
        rw [Outcome.andThen, nested, hdeep]
        exact hdeep
      · have hnone := absorb_fault session.lineCount token o
        rw [nested, hsame, Outcome.andThen, hnone]
        obtain hdeep | ⟨hdone, hstack, hjournal⟩ := hrest
        · exact Or.inl hdeep
        · refine Or.inr ⟨hdone, hstack, ?_⟩
          rw [hjournal, advance, List.append_assoc]
          rfl

end Session

namespace Evaluation

theorem kind_block (body : Text) : Text.kind (Lambda.block body) = .lambda := by
  rw [Lambda.block_eq_written, Lambda.kind_written]

theorem isExecutable_block (body : Text) : isExecutable (Lambda.block body) = true := by
  rw [isExecutable_eq_true, kind_block, Lambda.block_eq_written]
  exact ⟨Lambda.head?_written ['0'] body, Or.inr rfl⟩

theorem call_block (nested : Value → Stack → Outcome) (body : Text) (s : Stack) :
    call nested (Lambda.block body) s =
      .after (.lambdaRead (Lambda.block body))
        (runWords (runBodyWord nested (Lambda.block body) []) (Token.texts body) s) := by
  rw [call, Lambda.read_block]
  rfl

theorem isProper_of_isExecutable (hexecutable : isExecutable token = true) : IsProper token := by
  obtain ⟨-, hkind | hkind⟩ := isExecutable_eq_true.mp hexecutable
  · exact Or.inr (by rw [hkind]; decide)
  · exact Or.inr (by rw [hkind]; decide)

/-- Under its guard a word whose reach can be told fails as its run does, or else does what its
run does. -/
theorem attemptWord_of_reach {limit count : Nat} (line : Nat)
    (hexecutable : isExecutable token = true) (hreach : reach limit token s = .ok count) :
    let o := runText limit (runNested line limit) token s
    ∃ tried, attemptWord limit line token s = .ok tried ∧ tried.fault = o.fault ∧
      (o.fault = none → tried = o) := by
  intro o
  rw [attemptWord_of_isProper (isProper_of_isExecutable hexecutable),
    attempt_of_executable hexecutable, hreach]
  cases hfault : o.fault with
  | none => exact ⟨o, rfl, hfault, fun _ => rfl⟩
  | some fault =>
      refine ⟨{ o with stack := restore count s o.stack }, rfl, hfault, ?_⟩
      exact fun hnone => absurd hnone (Option.some_ne_none fault)

/-- A block without parameters fails as its body does, or else does what its body does. -/
theorem attemptWord_block (limit line : Nat) (body : Text) (s : Stack) :
    let o := runWords (runBodyWord (runNested line limit) (Lambda.block body) [])
      (Token.texts body) s
    ∃ tried, attemptWord limit line (Lambda.block body) s = .ok tried ∧ tried.fault = o.fault ∧
      (o.fault = none → tried = .after (.lambdaRead (Lambda.block body)) o) := by
  intro o
  have hrun : runText limit (runNested line limit) (Lambda.block body) s =
      .after (.lambdaRead (Lambda.block body)) o := by
    rw [runText_of_lambda (isExecutable_block body) (kind_block body), call_block]
  have hreach : reach limit (Lambda.block body) s = .ok s.length := by
    rw [reach, kind_block]
    rfl
  have htried := attemptWord_of_reach line (isExecutable_block body) hreach
  rw [hrun] at htried
  exact htried

end Evaluation

namespace Session

open Evaluation

/-- Wrapping a body in a block without parameters changes nothing, provided that the block is
a single token, that the body holds no words which fail at the top of a line, that the body
comes to its end there and that no word of the block is cut short: the block runs without
failure, leaves the stack that the body leaves, and skips what the body skips. -/
theorem runLine_block (session : Session) (body : Text) (after : Session) (steps : List Step)
    (hblock : Token.texts (Lambda.block body) = [Lambda.block body])
    (hproper : ∀ token ∈ Token.texts body,
      token.head? = some quoteMark ∨ Text.kind token ≠ .literal)
    (hreturns : session.runLine body = (after, .ok steps))
    (hlimit : ∀ step ∈ session.newlySkipped (session.runLine (Lambda.block body)).1,
      step.fault ≠ some .tooDeep) :
    ∃ wrapped,
      session.runLine (Lambda.block body) =
        (wrapped, .ok [⟨Lambda.block body, session.lineCount + 1, none⟩]) ∧
      wrapped.stack = after.stack ∧
      session.newlySkipped wrapped = session.newlySkipped after := by
  set start := session.beginLine (Lambda.block body) with hstart
  obtain ⟨tried, htried, hfault, hdone⟩ :=
    attemptWord_block session.limit (session.lineCount + 1) body session.stack
  have hstep : start.step (Lambda.block body) =
      .ok (start.advance (absorb (session.lineCount + 1) (Lambda.block body) tried),
        ⟨Lambda.block body, session.lineCount + 1, tried.fault⟩) :=
    step_eq_ok.mpr ⟨tried, htried, rfl, rfl⟩
  have hline : session.runLine (Lambda.block body) =
      (start.advance (absorb (session.lineCount + 1) (Lambda.block body) tried),
        .ok [⟨Lambda.block body, session.lineCount + 1, tried.fault⟩]) := by
    rw [runLine_eq, hblock]
    exact runWords_cons_eq_ok.mpr ⟨_, _, [], hstep, rfl, rfl⟩
  rw [runLine_eq] at hreturns
  have hskipped : session.newlySkipped (session.runLine (Lambda.block body)).1 =
      (absorb (session.lineCount + 1) (Lambda.block body) tried).events.filterMap Event.step? := by
    rw [hline]
    exact newlySkipped_of_append (by rw [skipped_advance, hstart, skipped_beginLine])
  obtain hdeep | ⟨hnone, hstack, hjournal⟩ :=
    runWords_nested (Lambda.block body) hproper hreturns
  · -- the block would be skipped for its depth, which `hlimit` excludes
    have hfailed : tried.fault = some .tooDeep := hfault.trans hdeep
    refine absurd rfl (hlimit ⟨Lambda.block body, session.lineCount + 1, some .tooDeep⟩ ?_)
    rw [hskipped, absorb, hfailed]
    simp [Event.step?]
  · have hsucceeded : tried.fault = none := hfault.trans hnone
    refine ⟨_, by rw [hline, hsucceeded], ?_, ?_⟩
    · rw [advance_stack, absorb_stack, hdone hnone]
      exact hstack
    · rw [hline] at hskipped
      rw [hskipped, absorb, hsucceeded, hdone hnone]
      refine (newlySkipped_of_append ?_).symm
      rw [skipped, hjournal, List.filterMap_append]
      exact congrArg (· ++ _) (skipped_beginLine body)

theorem runLine_block_underflow :
    ∃ wrapped,
      ({} : Session).runLine (Lambda.block "1 + 2".toList) =
        (wrapped, .ok [⟨"\x7b0 | 1 + 2\x7d".toList, 1, none⟩]) ∧
      wrapped.stack = (({} : Session).runLine "1 + 2".toList).1.stack ∧
      ({} : Session).newlySkipped wrapped =
        [⟨['+'], 1, some (.underflow (.arithmetic .add) 2 1)⟩] := by
  have hreturns : ({} : Session).runLine "1 + 2".toList =
      ((({} : Session).runLine "1 + 2".toList).1,
        .ok [⟨['1'], 1, none⟩, ⟨['+'], 1, some (.underflow (.arithmetic .add) 2 1)⟩,
          ⟨['2'], 1, none⟩]) :=
    Prod.ext rfl (by decide +kernel)
  have hskipped : ({} : Session).newlySkipped (({} : Session).runLine "1 + 2".toList).1 =
      [⟨['+'], 1, some (.underflow (.arithmetic .add) 2 1)⟩] := by decide +kernel
  rw [← hskipped]
  exact runLine_block {} "1 + 2".toList _ _ (by decide +kernel) (by decide +kernel) hreturns
    (by decide +kernel)

end Session

end StackScript
