import StackScript.Proofs.Session.Success
import StackScript.Proofs.Token.Spacing

/-! # Parameters by position

A reference in the body of a lambda pushes the value of its parameter as it is: the value is
not run, whatever it would do as a word. A lambda whose body holds nothing but references
therefore selects some of the slots that it takes, in any order and any of them again.
-/

namespace StackScript

theorem Text.dropFinalLineFeed_of_not_mem {t : Text} (ht : '\n' ∉ t) :
    dropFinalLineFeed t = t := by
  rw [dropFinalLineFeed, if_neg]
  rw [beq_iff_eq]
  exact fun hlast => ht (List.mem_of_getLast? hlast)

namespace Lambda

open Numeral

/-- The word that refers to the parameter at a position. -/
def parameterWord (index : Text) : Text := 'x' :: index

/-- The lambda that takes `count` values and leaves those at the given positions. -/
def selection (count : Text) (indices : List Text) : Text :=
  written count (Text.join [' '] (indices.map parameterWord))

/-- The lambda that takes `n` values and leaves the picked ones. -/
def rearrangement (n : Nat) (picks : List (Fin n)) : Text :=
  selection (ofNat n) (picks.map fun i => ofNat i.val)

variable {count index : Text} {indices : List Text}

/-! ## Reading the references -/

theorem parameterIndex?_parameterWord (hindex : IsConvertible index) :
    parameterIndex? (parameterWord index) = .ok (some (natValue index)) := by
  have hfeed : '\n' ∉ parameterWord index := by
    simp [parameterWord, hindex.not_mem (show '\n'.isDigit = false by decide)]
  have hdigits : index.all Char.isDigit = true := List.all_eq_true.mpr hindex.isDigit
  have hfound : parameterDigits? (parameterWord index) = some index := by
    rw [parameterDigits?, Text.dropFinalLineFeed_of_not_mem hfeed]
    simp [parameterWord, hdigits, hindex.ne_nil]
  rw [parameterIndex?, hfound]
  exact if_neg (Nat.not_lt.mpr hindex.length_le)

theorem isWordChar_of_mem_parameterWord (hindex : IsDigits index) :
    ∀ c ∈ parameterWord index, Token.isWordChar c = true :=
  List.forall_mem_cons.mpr
    ⟨by decide, fun c hc => Token.isWordChar_of_isDigit (hindex.isDigit c hc)⟩

theorem isConvertible_picks {n : Nat} (hshort : (ofNat n).length ≤ digitLimit)
    (picks : List (Fin n)) : ∀ index ∈ picks.map fun i => ofNat i.val, IsConvertible index := by
  rw [List.forall_mem_map]
  exact fun i _ => isConvertible_ofNat_of_le hshort i.isLt.le

theorem texts_join_parameterWords (hindices : ∀ index ∈ indices, IsDigits index) :
    Token.texts (Text.join [' '] (indices.map parameterWord)) = indices.map parameterWord := by
  have hquote (index : Text) : (parameterWord index).head? ≠ some '"' := by simp [parameterWord]
  refine Token.Rejoinable.texts_join ⟨?_, ?_⟩
  · rw [List.forall_mem_map]
    exact fun index hindex => Token.isWhole_of_word (List.cons_ne_nil _ _) (hquote index)
      (isWordChar_of_mem_parameterWord (hindices index hindex))
  · rw [List.pairwise_map]
    exact List.pairwise_of_forall fun index _ hopen => absurd hopen.1 (hquote index)

theorem read_selection (hcount : IsConvertible count)
    (hindices : ∀ index ∈ indices, IsConvertible index) :
    Lambda.read (selection count indices) =
      .ok ⟨selection count indices, natValue count, indices.map parameterWord⟩ := by
  have hbody := texts_join_parameterWords fun index hindex => (hindices index hindex).toIsDigits
  rw [selection, read_written hcount, hbody]

theorem texts_selection (hcount : IsDigits count) (hindices : ∀ index ∈ indices, IsDigits index) :
    Token.texts (selection count indices) = [selection count indices] := by
  have hnone {c : Char} (hblank : ¬ Text.isBlank c) (hword : Token.isWordChar c = false) :
      c ∉ Text.join [' '] (indices.map parameterWord) := by
    refine (Text.isSpaced_join _).not_mem hblank ?_
    rw [List.forall_mem_map]
    intro index hindex hc
    have hchar := isWordChar_of_mem_parameterWord (hindices index hindex) c hc
    rw [hword] at hchar
    cases hchar
  exact texts_written hcount (hnone (by decide) (by decide)) (hnone (by decide) (by decide))

end Lambda

namespace Evaluation

open Lambda Numeral

variable {nested : Value → Stack → Outcome} {text count : Text} {indices : List Text}
  {values : List Value} {s below : Stack}

/-! ## Running the references -/

theorem runWords_reaches_references (hindices : ∀ index ∈ indices, IsConvertible index)
    (values : List Value) (s : Stack) :
    (runWords (runBodyWord nested text values) (indices.map parameterWord) s).Reaches
      ((indices.map fun index =>
        values.getD (natValue index) (.text (parameterWord index))).reverse ++ s) := by
  induction indices generalizing s with
  | nil => exact .of_stack s
  | cons index rest ih =>
      obtain ⟨hindex, hrest⟩ := List.forall_mem_cons.mp hindices
      rw [List.map_cons, List.map_cons, List.reverse_cons, List.append_assoc]
      exact runWords_reaches_cons
        (runBodyWord_reaches_reference values (parameterIndex?_parameterWord hindex))
        (ih hrest _)

theorem call_selection (hcount : IsConvertible count)
    (hindices : ∀ index ∈ indices, IsConvertible index) (hlength : values.length = natValue count)
    (below : Stack) :
    (call nested (selection count indices) (values.reverse ++ below)).Reaches
      ((indices.map fun index =>
        values.getD (natValue index) (.text (parameterWord index))).reverse ++ below) := by
  have hbind : Lambda.bind? (natValue count) (values.reverse ++ below) = some (values, below) := by
    rw [← hlength, ← List.length_reverse]
    simp [Lambda.bind?]
  exact call_reaches (read_selection hcount hindices) hbind
    (runWords_reaches_references hindices values below)

end Evaluation

namespace Session

open Evaluation Lambda Numeral

variable {session : Session} {count : Text} {indices : List Text}

theorem runsTo_selection (hcount : IsConvertible count)
    (hindices : ∀ index ∈ indices, IsConvertible index) {s : Stack}
    (hcall : (Evaluation.call (runNested (session.lineCount + 1) session.limit)
      (selection count indices) session.stack).Reaches s) :
    session.RunsTo (selection count indices) s :=
  runsTo_lambda
    (texts_selection hcount.toIsDigits fun index hindex => (hindices index hindex).toIsDigits)
    (head?_written _ _) (kind_written _ _) hcall

theorem runsTo_rearrangement {values : List Value} {below : Stack}
    (hshort : (ofNat values.length).length ≤ digitLimit) (picks : List (Fin values.length))
    (hstack : session.stack = values.reverse ++ below) :
    session.RunsTo (rearrangement values.length picks)
      ((picks.map values.get).reverse ++ below) := by
  have hcount := isConvertible_ofNat_of_le hshort le_rfl
  have hindices := isConvertible_picks hshort picks
  have hpicked : (picks.map fun i => ofNat i.val).map (fun index =>
      values.getD (natValue index) (.text (parameterWord index))) = picks.map values.get := by
    rw [List.map_map]
    refine List.map_congr_left fun i _ => ?_
    simp
  refine runsTo_selection hcount hindices ?_
  rw [hstack, ← hpicked]
  exact call_selection hcount hindices (natValue_ofNat values.length).symm below

theorem runsTo_rearrangement_starved {n : Nat} (hshort : (ofNat n).length ≤ digitLimit)
    (picks : List (Fin n)) (hstarved : session.stack.length < n) :
    session.RunsTo (rearrangement n picks) session.stack := by
  have hcount := isConvertible_ofNat_of_le hshort le_rfl
  have hindices := isConvertible_picks hshort picks
  rw [← natValue_ofNat n] at hstarved
  exact runsTo_selection hcount hindices
    (call_reaches_starved (read_selection hcount hindices) hstarved)

/-- The line leaves the picked ones of the top `n` slots, as the lambda does. Unless slots are
missing it succeeds. -/
def Rearranges (session : Session) (line : Text) {n : Nat} (picks : List (Fin n)) : Prop :=
  ∃ s, session.RunsTo (rearrangement n picks) s ∧ (session.runLine line).1.stack = s ∧
    (n ≤ session.stack.length → session.RunsTo line s)

/-- An operator that leaves what a rearrangement leaves, and fails where slots are missing, does
what the rearrangement does. -/
theorem rearranges_of_apply (op : Operator) {reached n : Nat} {picks : List (Fin n)}
    (hshort : (ofNat n).length ≤ digitLimit)
    (hreach : op.reach session.limit session.stack = .ok reached)
    (hheld : ∀ (values : List Value) (below : Stack) (h : n = values.length),
      session.stack = values.reverse ++ below →
      op.apply session.limit session.stack =
        ⟨(picks.map fun i => values.get (i.cast h)).reverse ++ below, none⟩)
    (hstarved : session.stack.length < n →
      (op.apply session.limit session.stack).fault ≠ none) :
    session.Rearranges op.name.toList picks := by
  by_cases hlength : n ≤ session.stack.length
  · obtain ⟨values, below, hstack, rfl⟩ : ∃ values below,
        session.stack = values.reverse ++ below ∧ n = values.length :=
      ⟨(session.stack.take n).reverse, session.stack.drop n, by simp, by simp [hlength]⟩
    have hruns := runsTo_operator op (hheld values below rfl hstack)
    exact ⟨_, runsTo_rearrangement hshort picks hstack, hruns.stack_eq, fun _ => hruns⟩
  · have hfew := Nat.lt_of_not_le hlength
    exact ⟨_, runsTo_rearrangement_starved hshort picks hfew,
      stack_runLine_of_fault op hreach (hstarved hfew), fun h => absurd h hlength⟩

theorem rearranges_swap (session : Session) :
    session.Rearranges "SWAP".toList ([1, 0] : List (Fin 2)) := by
  have hreach : Operator.swap.reach session.limit session.stack =
      .ok (min 2 session.stack.length) := rfl
  refine rearranges_of_apply .swap (by decide) hreach ?_ ?_
  · intro values below hlength hstack
    obtain ⟨a, b, rfl⟩ := List.length_eq_two.mp hlength.symm
    rw [hstack]
    rfl
  · intro hstarved
    match hstack : session.stack with
    | [] | [_] => simp [Operator.apply, Operator.swapTop]
    | _ :: _ :: _ => exact absurd hstarved (by simp [hstack])

theorem rearranges_rot (session : Session) :
    session.Rearranges "ROT".toList ([1, 2, 0] : List (Fin 3)) := by
  have hreach : Operator.rot.reach session.limit session.stack =
      .ok (min 3 session.stack.length) := rfl
  refine rearranges_of_apply .rot (by decide) hreach ?_ ?_
  · intro values below hlength hstack
    obtain ⟨a, b, c, rfl⟩ := List.length_eq_three.mp hlength.symm
    rw [hstack]
    rfl
  · intro hstarved
    match hstack : session.stack with
    | [] | [_] | [_, _] => simp [Operator.apply, Operator.rotateTop]
    | _ :: _ :: _ :: _ => exact absurd hstarved (by simp [hstack])

/-- A lambda whose body is made of references takes its values off the stack and leaves, for each
reference, the value at its position as it is, or the reference itself if there is no such
value. Where values are missing it changes nothing. In either case it succeeds and skips nothing.
All rearrangements, deletions and copies of the top slots come about that way, those of `SWAP`
and `ROT` among them. -/
theorem runLine_selection (session : Session) :
    (∀ (count : Text) (indices : List Text), IsConvertible count →
      (∀ index ∈ indices, IsConvertible index) →
      (∀ (values : List Value) (below : Stack), values.length = natValue count →
        session.stack = values.reverse ++ below →
        session.RunsTo (selection count indices)
          ((indices.map fun index =>
            values.getD (natValue index) (.text (parameterWord index))).reverse ++ below)) ∧
      (session.stack.length < natValue count →
        session.RunsTo (selection count indices) session.stack)) ∧
    (∀ (values : List Value) (below : Stack) (picks : List (Fin values.length)),
      (ofNat values.length).length ≤ digitLimit → session.stack = values.reverse ++ below →
      session.RunsTo (rearrangement values.length picks)
        ((picks.map values.get).reverse ++ below)) ∧
    session.Rearranges "SWAP".toList ([1, 0] : List (Fin 2)) ∧
    session.Rearranges "ROT".toList ([1, 2, 0] : List (Fin 3)) := by
  refine ⟨fun count indices hcount hindices => ⟨?_, ?_⟩, ?_, rearranges_swap session,
    rearranges_rot session⟩
  · intro values below hlength hstack
    refine runsTo_selection hcount hindices ?_
    rw [hstack]
    exact call_selection hcount hindices hlength below
  · intro hstarved
    exact runsTo_selection hcount hindices
      (call_reaches_starved (read_selection hcount hindices) hstarved)
  · intro values below picks hshort hstack
    exact runsTo_rearrangement hshort picks hstack

theorem runLine_selection_verbatim :
    let quoted : Value := .text "'DROP".toList
    let lambda : Value := .text "\x7b0 | 1 2\x7d".toList
    let session : Session := { stack := [.text ['+'], lambda, quoted] }
    session.RunsTo "\x7b2 | x01 x7 x0 x1\x7d".toList
        [.text ['+'], lambda, .text "x7".toList, .text ['+'], quoted] ∧
      session.RunsTo "\x7b4 | x0\x7d".toList session.stack ∧
      session.RunsTo (rearrangement 3 [2, 0, 0]) [quoted, quoted, .text ['+']] := by
  intro quoted lambda session
  obtain ⟨hselection, hrearrangement, -⟩ := runLine_selection session
  refine ⟨?_, ?_, ?_⟩
  · exact (hselection ['2'] ["01".toList, ['7'], ['0'], ['1']] (by decide) (by decide)).1
      [lambda, .text ['+']] [quoted] rfl rfl
  · exact (hselection ['4'] [['0']] (by decide) (by decide)).2 (by decide)
  · exact hrearrangement [quoted, lambda, .text ['+']] [] [2, 0, 0] (by decide) rfl

end Session

end StackScript
