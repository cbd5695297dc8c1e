import StackScript.Proofs.Session.Words
import StackScript.Proofs.Storable.Operation
import StackScript.Proofs.Token.Rejoin

/-! # Storable slots along every run

A run pushes what stands in the source, what operators compute, and what it took off the stack
before. The words of a line and of a lambda are cut out of a line, so that nothing ever comes
onto the stack that no slot may hold: not within nested words, not where slots are put back,
and not where a run escapes.
-/

namespace StackScript

namespace Lambda

variable {text : Text} {lambda : Lambda}

theorem subset_of_cutAt {mark : Char} {t front back : Text}
    (hcut : Text.cutAt mark t = some (front, back)) : back ⊆ t := by
  unfold Text.cutAt at hcut
  split at hcut
  next => cases hcut
  next c rest hrest =>
      cases hcut
      have hsuffix : c :: back <:+ t := hrest ▸ List.dropWhile_suffix _
      exact List.Subset.trans (List.subset_cons_self c back) hsuffix.subset

/-- The words of a lambda stand in its text. -/
theorem subset_of_mem_body (hread : Lambda.read text = .ok lambda) {token : Text}
    (htoken : token ∈ lambda.body) : token ⊆ text := by
  unfold Lambda.read at hread
  split at hread
  · cases hread
  · split at hread
    next => cases hread
    next header body hparts =>
      simp only at hread
      split at hread
      · cases hread
      · split at hread
        · cases hread
        · cases hread
          have hbody := List.Subset.trans (Token.subset_of_mem_texts htoken)
            (subset_of_cutAt hparts)
          have hinner := ((Text.trim_sublist _).trans (Text.inner_sublist text)).subset
          exact List.Subset.trans hbody hinner

end Lambda

namespace Evaluation

variable {depth line : Nat} {s : Stack} {t text : Text}

/-- Running values that slots may hold leaves stacks of such values. -/
def KeepsStorable (nested : Value → Stack → Outcome) : Prop :=
  ∀ {v s}, v.IsStorable → s.IsStorable → (nested v s).stack.IsStorable

variable {nested : Value → Stack → Outcome}

theorem andThen_storable {o : Outcome} {next : Stack → Outcome} (ho : o.stack.IsStorable)
    (hnext : ∀ {s : Stack}, s.IsStorable → (next s).stack.IsStorable) :
    (o.andThen next).stack.IsStorable := by
  unfold Outcome.andThen
  split
  · exact ho
  · exact hnext ho

/-! ## Lambdas -/

theorem runBodyWord_storable (hnested : KeepsStorable nested) (htext : Text.IsUnbroken text)
    {parameters : List Value} (hparameters : ∀ v ∈ parameters, v.IsStorable) {token : Text}
    (htoken : Text.IsUnbroken token) (hs : s.IsStorable) :
    (runBodyWord nested text parameters token s).stack.IsStorable := by
  unfold runBodyWord
  split
  · exact hs
  next index _ =>
    -- a reference beyond the parameters stands for itself
    refine hs.cons ?_
    rw [List.getD_eq_getElem?_getD]
    cases hvalue : parameters[index]? with
    | none => exact Value.isStorable_text.mpr htoken
    | some v => exact hparameters v (List.mem_of_getElem? hvalue)
  · split
    · exact hs.cons (Value.isStorable_text.mpr htext)
    · exact hnested (Value.isStorable_text.mpr htoken) hs

theorem runWords_storable {run : Text → Stack → Outcome} {tokens : List Text}
    (hrun : ∀ token ∈ tokens, ∀ {s : Stack}, s.IsStorable → (run token s).stack.IsStorable)
    (hs : s.IsStorable) : (runWords run tokens s).stack.IsStorable := by
  induction tokens generalizing s with
  | nil => exact hs
  | cons token rest ih =>
      refine andThen_storable (hrun token List.mem_cons_self hs) ?_
      exact ih fun t ht => hrun t (List.mem_cons_of_mem token ht)

theorem call_storable (hnested : KeepsStorable nested) (htext : Text.IsUnbroken text)
    (hs : s.IsStorable) : (call nested text s).stack.IsStorable := by
  unfold call
  split
  · exact hs
  next lambda hread =>
    simp only [Outcome.after]
    split
    next => exact hs
    next parameters rest hbind =>
      simp only [Lambda.bind?, Option.ite_none_left_eq_some, Option.some.injEq,
        Prod.mk.injEq] at hbind
      obtain ⟨_, rfl, rfl⟩ := hbind
      refine runWords_storable (fun token htoken _ => ?_) (hs.drop _)
      refine runBodyWord_storable hnested htext (fun v hv => ?_)
        (htext.subset (Lambda.subset_of_mem_body hread htoken))
      exact hs.take _ v (List.mem_reverse.mp hv)

/-! ## Texts under their guard -/

theorem runText_storable (hnested : KeepsStorable nested) (ht : Text.IsUnbroken t)
    (hs : s.IsStorable) : (runText depth nested t s).stack.IsStorable := by
  unfold runText
  split
  next word =>
    have hword : Text.IsUnbroken word := ht.subset (List.subset_cons_self _ word)
    exact hs.cons (Value.isStorable_text.mpr hword)
  next =>
    split
    next => exact call_storable hnested ht hs
    next =>
      split
      · match s with
        | [] => exact hs
        | v :: rest => exact hnested hs.head hs.tail
      · exact Operator.applyNamed_storable t hs
    next => exact hs.cons (Value.isStorable_text.mpr ht)

theorem attempt_storable (hnested : KeepsStorable nested) (ht : Text.IsUnbroken t)
    (hs : s.IsStorable) :
    Yields (fun o : Outcome => o.stack.IsStorable) (attempt depth nested t s) := by
  have hrun : (runText depth nested t s).stack.IsStorable := runText_storable hnested ht hs
  unfold attempt
  split
  · refine Yields.next fun count => ?_
    simp only
    split
    · exact .ok hrun
    · exact .ok ((hs.take count).append (hrun.drop _))
  · exact .ok hrun

theorem runNested_storable (line depth : Nat) : KeepsStorable (runNested line depth) := by
  induction depth using Nat.strongRecOn with
  | ind depth ih =>
    intro v s hv hs
    match depth with
    | 0 | 1 | 2 | 3 => exact hs
    | depth + 4 =>
        cases v with
        | text t =>
            rw [runNested, runGuarded]
            cases htried : attempt depth (runNested line depth) t s with
            | error fault => exact hs
            | ok o =>
                have ho := attempt_storable (ih depth (by omega)) (Value.isStorable_text.mp hv) hs
                  o htried
                simp only
                split
                · exact ho
                · rw [absorb_stack]
                  exact ho
        | _ => exact hs.cons hv

theorem attemptWord_storable {limit : Nat} (ht : Text.IsUnbroken t) (hs : s.IsStorable) :
    Yields (fun o : Outcome => o.stack.IsStorable) (attemptWord limit line t s) := by
  unfold attemptWord
  split
  · exact .ok hs
  · exact attempt_storable (runNested_storable line limit) ht hs

end Evaluation

namespace Session

open Evaluation

variable {session : Session}

theorem runWords_storable {tokens : List Text} (htokens : ∀ t ∈ tokens, Text.IsUnbroken t)
    (hs : session.stack.IsStorable) : (session.runWords tokens).1.stack.IsStorable := by
  induction tokens generalizing session with
  | nil => exact hs
  | cons token rest ih =>
      cases hstep : session.step token with
      | error fault =>
          rw [runWords_cons_error hstep]
          exact hs
      | ok reached =>
          obtain ⟨middle, result⟩ := reached
          rw [runWords_cons_ok hstep]
          obtain ⟨o, hattempt, rfl, _⟩ := step_eq_ok.mp hstep
          refine ih (fun t ht => htokens t (List.mem_cons_of_mem token ht)) ?_
          rw [advance_stack, absorb_stack]
          exact attemptWord_storable (htokens token List.mem_cons_self) hs o hattempt

theorem runLine_storable {line : Text} (hline : Text.IsUnbroken line)
    (hs : session.stack.IsStorable) : (session.runLine line).1.stack.IsStorable := by
  rw [runLine_eq]
  exact runWords_storable (fun t ht => hline.subset (Token.subset_of_mem_texts ht)) hs

theorem runLines_storable {lines : List Text} (hlines : ∀ line ∈ lines, Text.IsUnbroken line)
    (hs : session.stack.IsStorable) : (session.runLines lines).1.stack.IsStorable := by
  induction lines generalizing session with
  | nil => exact hs
  | cons line rest ih =>
      have hafter := runLine_storable (hlines line List.mem_cons_self) hs
      rw [runLines]
      rcases hrun : session.runLine line with ⟨reached, fault | steps⟩
      · rw [hrun] at hafter
        exact hafter
      · rw [hrun] at hafter
        exact ih (fun l hl => hlines l (List.mem_cons_of_mem line hl)) hafter

/-- A run of a source keeps the slots storable, also if it escapes. -/
theorem runSource_storable (source : Text) (hs : session.stack.IsStorable) :
    (session.runSource source).1.stack.IsStorable :=
  runLines_storable (fun _ hline => Text.isUnbroken_of_mem_lines hline) hs

/-- Runs sources one after the other, each from the state that the one before it left, whether
it came to its end or escaped. -/
def runSources (session : Session) (sources : List Text) : Session :=
  sources.foldl (fun session source => (session.runSource source).1) session

theorem runSources_storable (sources : List Text) (hs : session.stack.IsStorable) :
    (session.runSources sources).stack.IsStorable := by
  induction sources generalizing session with
  | nil => exact hs
  | cons source rest ih => exact ih (runSource_storable source hs)

/-- However often a session that began with an empty stack is run, and on whatever sources,
every slot holds a truth value or is composed of numbers, texts without line breaks and
lists. -/
theorem runSources_sound (session : Session) (sources : List Text) (hempty : session.stack = []) :
    ∀ v ∈ (session.runSources sources).stack, v.IsStorable := by
  apply runSources_storable sources
  rw [hempty]
  exact Stack.IsStorable.nil

/-- With three nested calls to go, a product of matrices can be computed but not told as a
count. The run escapes, and the next one finds the product on the stack. -/
theorem runSources_sound_escaped :
    let session : Session := { limit := 3 }
    let product : Text := "[[1]] [[2]] * ROLL".toList
    session.stack = [] ∧ (session.runSource product).2 = some .tooDeep ∧
      (session.runSources [product, "TRUE !".toList]).stack.length = 2 ∧
        ∀ v ∈ (session.runSources [product, "TRUE !".toList]).stack, v.IsStorable :=
  ⟨rfl, by decide +kernel, by decide +kernel, runSources_sound _ _ rfl⟩

end Session

end StackScript
