import StackScript.Proofs.Evaluation.Rollback
import StackScript.Proofs.Session.Words
import StackScript.Proofs.Simulation.Operator

/-! # Evaluation on stacks whose slots serve alike

Evaluation never leaves a relation under which values serve alike, provided that a value is
only exchanged for another one if both are pushed when they are run. Words then fail alike,
are skipped alike and leave related stacks, at the top of a line and nested at any depth.

With equality for the relation this says that more depth changes nothing but what was cut
short.
-/

namespace StackScript

/-- A value that is pushed when it is run. -/
def Value.IsInert (v : Value) : Prop :=
  ∀ t, v = .text t → t.head? ≠ some Evaluation.quoteMark ∧ Evaluation.isExecutable t = false

/-- Values related by `V` serve alike and run alike. -/
structure Interchange (either : Prop) (V : Value → Value → Prop) : Prop
    extends Exchange either V where
  inert {v w : Value} : V v w → v = w ∨ v.IsInert ∧ w.IsInert

namespace Outcome

/-- Outcomes are alike if the same happened and the stacks are related, or if one of them was
cut short. -/
inductive Alike (either : Prop) (V : Value → Value → Prop) : Outcome → Outcome → Prop
  | first (s events o') : Alike either V ⟨s, events, some .tooDeep⟩ o'
  | second (h : either) (o s events) : Alike either V o ⟨s, events, some .tooDeep⟩
  | both {s s'} (h : List.Forall₂ V s s') (events fault) :
      Alike either V ⟨s, events, fault⟩ ⟨s', events, fault⟩

namespace Alike

variable {either : Prop} {V : Value → Value → Prop} {o o' : Outcome}

theorem of_applied {x y : Applied} (h : Applied.Alike either V x y) :
    Alike either V ⟨x.stack, [], x.fault⟩ ⟨y.stack, [], y.fault⟩ := by
  cases h with
  | first => exact .first _ _ _
  | second h => exact .second h _ _ _
  | both hs fault => exact .both hs _ _

/-- What happened before is put in front of what happens next. -/
theorem precede (events : List Event) (h : Alike either V o o') :
    Alike either V { o with events := events ++ o.events }
      { o' with events := events ++ o'.events } := by
  cases h with
  | first => exact .first _ _ _
  | second h => exact .second h _ _ _
  | both hs more fault => exact .both hs _ _

theorem andThen {next next' : Stack → Outcome} (h : Alike either V o o')
    (hnext : ∀ {s s'}, List.Forall₂ V s s' → Alike either V (next s) (next' s')) :
    Alike either V (o.andThen next) (o'.andThen next') := by
  cases h with
  | first => exact .first _ _ _
  | second h => exact .second h _ _ _
  | both hs events fault =>
      cases fault with
      | some fault => exact .both hs _ _
      | none => exact (hnext hs).precede events

end Alike

end Outcome

namespace Evaluation

variable {either : Prop} {V : Value → Value → Prop} {d e line : Nat} {s s' : Stack}

/-- Runs of related values on related stacks are alike. -/
def NestedAlike (either : Prop) (V : Value → Value → Prop)
    (nested nested' : Value → Stack → Outcome) : Prop :=
  ∀ {v w s s'}, V v w → List.Forall₂ V s s' → Outcome.Alike either V (nested v s) (nested' w s')

variable {nested nested' : Value → Stack → Outcome}

/-! ## Lambdas -/

theorem bind?_related (count : Nat) (hs : List.Forall₂ V s s') :
    (Lambda.bind? count s = none ∧ Lambda.bind? count s' = none) ∨
      ∃ parameters parameters' rest rest',
        Lambda.bind? count s = some (parameters, rest) ∧
        Lambda.bind? count s' = some (parameters', rest') ∧
        List.Forall₂ V parameters parameters' ∧ List.Forall₂ V rest rest' := by
  unfold Lambda.bind?
  rw [← hs.length_eq]
  split
  · exact Or.inl ⟨rfl, rfl⟩
  · refine Or.inr ⟨_, _, _, _, rfl, rfl, ?_, List.forall₂_drop count hs⟩
    exact List.rel_reverse (List.forall₂_take count hs)

theorem getD_related {parameters parameters' : List Value} (index : Nat) {v : Value}
    (hv : V v v) (h : List.Forall₂ V parameters parameters') :
    V (parameters.getD index v) (parameters'.getD index v) := by
  induction h generalizing index with
  | nil => exact hv
  | cons hhead _ ih =>
      cases index with
      | zero => exact hhead
      | succ index => exact ih index

theorem runBodyWord_alike (hV : Interchange either V)
    (hnested : NestedAlike either V nested nested') (text token : Text) {parameters parameters' : List Value}
    (hparameters : List.Forall₂ V parameters parameters') (hs : List.Forall₂ V s s') :
    Outcome.Alike either V (runBodyWord nested text parameters token s)
      (runBodyWord nested' text parameters' token s') := by
  unfold runBodyWord
  split
  · exact .both hs _ _
  · exact .both (.cons (getD_related _ (hV.refl _) hparameters) hs) _ _
  · split
    · exact .both (.cons (hV.refl _) hs) _ _
    · exact hnested (hV.refl _) hs

theorem runWords_alike {run run' : Text → Stack → Outcome}
    (hrun : ∀ token {s s'}, List.Forall₂ V s s' →
      Outcome.Alike either V (run token s) (run' token s'))
    (tokens : List Text) (hs : List.Forall₂ V s s') :
    Outcome.Alike either V (runWords run tokens s) (runWords run' tokens s') := by
  induction tokens generalizing s s' with
  | nil => exact .both hs _ _
  | cons token rest ih => exact (hrun token hs).andThen ih

theorem call_alike (hV : Interchange either V) (hnested : NestedAlike either V nested nested')
    (text : Text) (hs : List.Forall₂ V s s') :
    Outcome.Alike either V (call nested text s) (call nested' text s') := by
  unfold call
  split
  · exact .both hs _ _
  next lambda _ =>
    apply Outcome.Alike.precede [_]
    obtain ⟨hnone, hnone'⟩ | ⟨parameters, parameters', rest, rest', hsome, hsome', hparameters,
      hrest⟩ := bind?_related lambda.parameters hs
    · rw [hnone, hnone', hs.length_eq]
      exact .both hs _ _
    · rw [hsome, hsome']
      exact runWords_alike (fun token _ _ => runBodyWord_alike hV hnested _ token hparameters)
        _ hrest

/-! ## Texts under their guard -/

theorem evalTop_alike (hnested : NestedAlike either V nested nested')
    (hs : List.Forall₂ V s s') :
    Outcome.Alike either V (evalTop nested s) (evalTop nested' s') := by
  cases hs with
  | nil => exact .both .nil _ _
  | cons hv hrest => exact hnested hv hrest

theorem runText_alike (hV : Interchange either V) (hnested : NestedAlike either V nested nested')
    (hdepth : either ∨ d ≤ e) (t : Text) (hs : List.Forall₂ V s s') :
    Outcome.Alike either V (runText d nested t s) (runText e nested' t s') := by
  cases hexecutable : isExecutable t with
  | false =>
      obtain ⟨pushed, hpushed⟩ := runText_of_not_executable hexecutable
      rw [hpushed, hpushed]
      exact .both (.cons (hV.refl _) hs) _ _
  | true =>
      obtain ⟨_, hkind | hkind⟩ := isExecutable_eq_true.mp hexecutable
      · by_cases heval : t = evalWord
        · rw [runText_of_eval hexecutable hkind heval, runText_of_eval hexecutable hkind heval]
          exact evalTop_alike hnested hs
        · rw [runText_of_operator hexecutable hkind heval,
            runText_of_operator hexecutable hkind heval]
          exact .of_applied (Operator.applyNamed_alike hV.toExchange hdepth t hs)
      · rw [runText_of_lambda hexecutable hkind, runText_of_lambda hexecutable hkind]
        exact call_alike hV hnested t hs

theorem restore_related (count : Nat) {before before' after after' : Stack}
    (hbefore : List.Forall₂ V before before') (hafter : List.Forall₂ V after after') :
    List.Forall₂ V (restore count before after) (restore count before' after') := by
  unfold restore
  rw [← hbefore.length_eq, ← hafter.length_eq]
  exact List.rel_append (List.forall₂_take _ hbefore) (List.forall₂_drop _ hafter)

theorem reach_alike (hV : Interchange either V) (hdepth : either ∨ d ≤ e) (t : Text)
    (hs : List.Forall₂ V s s') :
    Alike .tooDeep either Eq (reach d t s) (reach e t s') := by
  unfold reach
  split
  · exact Operator.reachNamed_alike hV.toExchange hdepth t hs
  · rw [hs.length_eq]
    exact .refl _

theorem attempt_alike (hV : Interchange either V) (hnested : NestedAlike either V nested nested')
    (hdepth : either ∨ d ≤ e) (t : Text) (hs : List.Forall₂ V s s') :
    Alike .tooDeep either (Outcome.Alike either V) (attempt d nested t s)
      (attempt e nested' t s') := by
  have hrun := runText_alike hV hnested hdepth t hs
  unfold attempt
  split
  · apply (reach_alike hV hdepth t hs).bindEq
    intro count
    revert hrun
    generalize runText d nested t s = o
    generalize runText e nested' t s' = o'
    intro hrun
    -- what is cut short stays so, whatever the guard puts back
    cases hrun with
    | first => rcases o' with ⟨after', events', _ | fault⟩ <;> exact .ok (.first _ _ _)
    | second h => rcases o with ⟨after, events, _ | fault⟩ <;> exact .ok (.second h _ _ _)
    | both hafter events fault =>
        cases fault with
        | none => exact .ok (.both hafter _ _)
        | some fault => exact .ok (.both (restore_related count hs hafter) _ _)
  · exact .ok hrun

/-! ## Nested values -/

theorem absorb_alike (line : Nat) (t : Text) {o o' : Outcome}
    (h : Outcome.Alike either V o o') (ho : o.fault ≠ some .tooDeep)
    (ho' : either → o'.fault ≠ some .tooDeep) :
    Outcome.Alike either V (absorb line t o) (absorb line t o') := by
  cases h with
  | first => exact absurd rfl ho
  | second h => exact absurd rfl (ho' h)
  | both hs events fault => cases fault <;> exact .both hs _ _

theorem runGuarded_alike (hV : Interchange either V)
    (hnested : NestedAlike either V nested nested') (hdepth : either ∨ d ≤ e) (line : Nat)
    (t : Text) (hs : List.Forall₂ V s s') :
    Outcome.Alike either V (runGuarded d line nested t s) (runGuarded e line nested' t s') := by
  have hattempt := attempt_alike hV hnested hdepth t hs
  unfold runGuarded
  revert hattempt
  generalize attempt d nested t s = x
  generalize attempt e nested' t s' = y
  intro hattempt
  cases hattempt with
  | first => exact .first _ _ _
  | second h => exact .second h _ _ _
  | error fault => exact .both hs _ _
  | @ok o o' h =>
      simp only
      -- only the failure to nest any deeper leaves the guard
      by_cases ho : o.fault = some .tooDeep
      · rw [if_pos ho]
        obtain ⟨after, events, fault⟩ := o
        cases ho
        exact .first _ _ _
      by_cases ho' : o'.fault = some .tooDeep
      · rw [if_pos ho', if_neg ho]
        cases h with
        | first => exact absurd rfl ho
        | second h => exact .second h _ _ _
        | both hafter events fault => exact absurd ho' ho
      rw [if_neg ho, if_neg ho']
      exact absorb_alike line t h ho fun _ => ho'

/-- What is pushed when it is run needs no more depth than any nested value. -/
theorem runNested_of_inert {v : Value} (hv : v.IsInert) (line depth : Nat) (s : Stack) :
    runNested line (depth + 4) v s = { stack := v :: s } := by
  cases v with
  | text t =>
      obtain ⟨hquote, hplain⟩ := hv t rfl
      rw [runNested, runGuarded, attempt_of_not_executable hplain,
        runText_of_plain hquote hplain]
      rfl
  | _ => rfl

/-- Nested values run alike at all depths. -/
theorem runNested_alike (hV : Interchange either V) (line : Nat) (hdepth : either ∨ d ≤ e) :
    NestedAlike either V (runNested line d) (runNested line e) := by
  induction d using Nat.strongRecOn generalizing e with
  | ind d ih =>
    intro v w s s' hvw hs
    match d, e with
    | 0, _ | 1, _ | 2, _ | 3, _ => exact .first _ _ _
    | d + 4, 0 | d + 4, 1 | d + 4, 2 | d + 4, 3 =>
        exact .second (hdepth.resolve_right (by omega)) _ _ _
    | d + 4, e + 4 =>
        have hdepth' : either ∨ d ≤ e := hdepth.imp_right (by omega)
        -- equal values run with four calls less each; exchanged ones are only pushed
        obtain rfl | ⟨hv, hw⟩ := hV.inert hvw
        · cases v with
          | text t =>
              exact runGuarded_alike hV (ih d (by omega) hdepth') hdepth' line t hs
          | _ => exact .both (.cons (hV.refl _) hs) _ _
        · rw [runNested_of_inert hv, runNested_of_inert hw]
          exact .both (.cons hvw hs) _ _

/-- The guarded runs of a word of a line are alike. -/
theorem attemptWord_alike (hV : Interchange either V) (hdepth : either ∨ d ≤ e) (line : Nat)
    (token : Text) (hs : List.Forall₂ V s s') :
    Alike .tooDeep either (Outcome.Alike either V) (attemptWord d line token s)
      (attemptWord e line token s') := by
  unfold attemptWord
  split
  · exact .ok (.both hs _ _)
  · exact attempt_alike hV (runNested_alike hV line hdepth) hdepth token hs

/-! ## More depth -/

/-- Equal values serve alike, whatever depth is left to the second one. -/
theorem interchange_eq : Interchange False Eq where
  refl _ := rfl
  serves hdepth h := h ▸ .refl hdepth _
  inert h := Or.inl h

end Evaluation

end StackScript
