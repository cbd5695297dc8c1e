import StackScript.Proofs.Storable.Evaluation
import StackScript.Proofs.Value.LineFeed

/-! # The lines that a program puts out

A written stack is cut into lines again. Each slot gives the lines of its written form, which is
one line as long as no text in the slot breaks it. Array texts and lambdas never do, and neither
do strings: they stand on the stack as they stood in the source. The escapes of a matrix text
are undone when it is written, and the line feed that one of them spells is put out as it is.
-/

namespace StackScript

/-! ## Lines -/

namespace Text

/-- The lines of a text: what stands before, between and behind its line feeds. -/
def outputLines (t : Text) : List Text := t.splitOn '\n'

theorem outputLines_of_not_mem {t : Text} (hfeed : '\n' ∉ t) : outputLines t = [t] :=
  List.splitOn_eq_singleton hfeed

theorem outputLines_append (t rest : Text) :
    outputLines (t ++ '\n' :: rest) = outputLines t ++ outputLines rest :=
  List.splitOn_append_cons_self t rest

theorem length_outputLines_pos (t : Text) : 0 < (outputLines t).length :=
  List.length_pos_iff.mpr (List.splitOn_ne_nil '\n' t)

theorem length_outputLines_eq_one {t : Text} : (outputLines t).length = 1 ↔ '\n' ∉ t := by
  constructor
  · intro hone hfeed
    obtain ⟨front, back, rfl⟩ := List.append_of_mem hfeed
    rw [outputLines_append, List.length_append] at hone
    have hfront := length_outputLines_pos front
    have hback := length_outputLines_pos back
    omega
  · intro hfeed
    rw [outputLines_of_not_mem hfeed, List.length_singleton]

/-- Texts that are put one under the other keep their lines. -/
theorem outputLines_join {texts : List Text} (hne : texts ≠ []) :
    outputLines (join ['\n'] texts) = texts.flatMap outputLines := by
  induction texts with
  | nil => exact absurd rfl hne
  | cons t rest ih =>
      cases rest with
      | nil => simp [join]
      | cons next rest =>
          rw [join, List.append_assoc, List.singleton_append, outputLines_append,
            ih (List.cons_ne_nil next rest)]
          · exact List.flatMap_cons.symm
          · exact List.cons_ne_nil next rest

theorem length_le_flatMap_outputLines (texts : List Text) :
    texts.length ≤ (texts.flatMap outputLines).length := by
  induction texts with
  | nil => exact Nat.le_refl _
  | cons t rest ih =>
      have hpos := length_outputLines_pos t
      rw [List.flatMap_cons, List.length_append, List.length_cons]
      omega

theorem length_flatMap_outputLines_eq {texts : List Text} :
    (texts.flatMap outputLines).length = texts.length ↔ ∀ t ∈ texts, '\n' ∉ t := by
  induction texts with
  | nil => simp
  | cons t rest ih =>
      have hpos := length_outputLines_pos t
      have hle := length_le_flatMap_outputLines rest
      rw [List.flatMap_cons, List.length_append, List.length_cons, List.forall_mem_cons, ← ih,
        ← length_outputLines_eq_one]
      omega

theorem flatMap_outputLines_eq_self {texts : List Text} :
    texts.flatMap outputLines = texts ↔ ∀ t ∈ texts, '\n' ∉ t := by
  constructor
  · intro hsame
    rw [← length_flatMap_outputLines_eq, hsame]
  · intro hfeeds
    rw [List.flatMap_congr fun t ht => outputLines_of_not_mem (hfeeds t ht)]
    exact List.flatMap_singleton' texts

end Text

/-! ## Written stacks -/

/-- A written stack is that of its slots one under the other, the bottom one first. -/
theorem Stack.render_eq_ok {depth : Nat} {s : Stack} {text : Text}
    (hrender : s.render depth = .ok text) :
    ∃ written, List.Forall₂ (fun v t => v.render depth = .ok t) s.reverse written ∧
      text = Text.join ['\n'] written := by
  unfold Stack.render at hrender
  cases hwritten : s.reverse.mapM (Value.render depth) with
  | error fault =>
      rw [hwritten] at hrender
      cases hrender
  | ok written =>
      rw [hwritten] at hrender
      cases hrender
      exact ⟨written, Value.forall₂_of_mapM_eq_ok hwritten, rfl⟩

/-- The written forms of slots hold no line feed exactly if no slot breaks its line. -/
theorem Value.lineFeeds_of_written {depth : Nat} {slots : List Value} {written : List Text}
    (hwritten : List.Forall₂ (fun v t => v.render depth = .ok t) slots written) :
    (∀ t ∈ written, '\n' ∉ t) ↔ ∀ v ∈ slots, ¬ v.BreaksLine := by
  induction hwritten with
  | nil => simp
  | cons hrender _ ih =>
      rw [List.forall_mem_cons, List.forall_mem_cons, ih, render_lineFeed hrender]

theorem runProgram_eq_ok {source text : Text} (hreturns : runProgram source = .ok text) :
    ∃ stack, evaluate source = .ok stack ∧ stack.render defaultLimit = .ok text := by
  unfold runProgram at hreturns
  cases hstack : evaluate source with
  | error fault =>
      rw [hstack] at hreturns
      cases hreturns
  | ok stack =>
      rw [hstack] at hreturns
      exact ⟨stack, rfl, hreturns⟩

/-- Evaluation from an empty stack leaves what slots may hold. -/
theorem evaluate_storable {source : Text} {stack : Stack} (hstack : evaluate source = .ok stack) :
    stack.IsStorable := by
  have hkept : (({ stack := [] } : Session).runSource source).1.stack.IsStorable :=
    Session.runSource_storable source Stack.IsStorable.nil
  unfold evaluate at hstack
  simp only at hstack
  split at hstack
  next session hrun =>
    cases hstack
    rw [hrun] at hkept
    exact hkept
  next => cases hstack

/-- What a program puts out is empty if the stack is. Otherwise its lines are those of the
written slots, the bottom one first. They are the written slots themselves, and as many as
there are slots, exactly if no slot breaks its line; and a slot that does holds a matrix
text. -/
theorem runProgram_lines {source text : Text} (hreturns : runProgram source = .ok text) :
    ∃ stack written, evaluate source = .ok stack ∧
      List.Forall₂ (fun v t => v.render defaultLimit = .ok t) stack.reverse written ∧
      (stack = [] → text = []) ∧
      (stack ≠ [] →
        text.outputLines = written.flatMap Text.outputLines ∧
        (text.outputLines = written ↔ ∀ v ∈ stack, ¬ v.BreaksLine) ∧
        (text.outputLines.length = stack.length ↔ ∀ v ∈ stack, ¬ v.BreaksLine)) ∧
      ∀ v ∈ stack, v.BreaksLine → v.HoldsMatrixText := by
  obtain ⟨stack, hstack, hrender⟩ := runProgram_eq_ok hreturns
  obtain ⟨written, hwritten, rfl⟩ := Stack.render_eq_ok hrender
  refine ⟨stack, written, hstack, hwritten, ?_, ?_, ?_⟩
  · rintro rfl
    cases hwritten
    rfl
  · intro hne
    have hlength : stack.length = written.length := by
      rw [← hwritten.length_eq, List.length_reverse]
    have hwritten_ne : written ≠ [] := by
      rintro rfl
      exact hne (List.length_eq_zero_iff.mp hlength)
    have hlines := Text.outputLines_join hwritten_ne
    have hbreaks : (∀ t ∈ written, '\n' ∉ t) ↔ ∀ v ∈ stack, ¬ v.BreaksLine := by
      simpa using Value.lineFeeds_of_written hwritten
    refine ⟨hlines, ?_, ?_⟩
    · rw [hlines, Text.flatMap_outputLines_eq_self, hbreaks]
    · rw [hlines, hlength, Text.length_flatMap_outputLines_eq, hbreaks]
  · exact fun v hv => (evaluate_storable hstack v hv).holdsMatrixText_of_breaksLine

/-- A number under a matrix text whose escape spells a line feed takes up three lines for two
slots, and it is the matrix text that breaks its line. -/
theorem runProgram_lines_broken :
    ∃ stack, evaluate "3 [[\"a\\nb\"]]".toList = .ok stack ∧ stack.length = 2 ∧
      (Text.outputLines "3\n[[\"a\nb\"]]".toList).length = 3 ∧
      ∃ v ∈ stack, v.BreaksLine ∧ v.HoldsMatrixText := by
  have hreturns : runProgram "3 [[\"a\\nb\"]]".toList = .ok "3\n[[\"a\nb\"]]".toList := by
    decide +kernel
  have hthree : (Text.outputLines "3\n[[\"a\nb\"]]".toList).length = 3 := by decide
  obtain ⟨stack, written, hstack, -, -, hlines, hholds⟩ := runProgram_lines hreturns
  have htwo : stack.length = 2 := by
    have hslots : (evaluate "3 [[\"a\\nb\"]]".toList).map List.length = .ok 2 := by decide +kernel
    rw [hstack] at hslots
    exact Except.ok.inj hslots
  have hne : stack ≠ [] := by
    rintro rfl
    cases htwo
  obtain ⟨-, -, hcount⟩ := hlines hne
  rw [hthree, htwo] at hcount
  have hbroken : ¬ ∀ v ∈ stack, ¬ v.BreaksLine := fun h => absurd (hcount.mpr h) (by decide)
  push Not at hbroken
  obtain ⟨v, hv, hbreaks⟩ := hbroken
  exact ⟨stack, hstack, htwo, hthree, v, hv, hbreaks, hholds v hv hbreaks⟩

/-- A matrix text alone on the stack takes up two lines. -/
theorem runProgram_matrix_two_lines :
    (evaluate "[[\"a\\nb\"]]".toList).map List.length = .ok 1 ∧
      runProgram "[[\"a\\nb\"]]".toList = .ok "[[\"a\nb\"]]".toList ∧
      Text.outputLines "[[\"a\nb\"]]".toList = ["[[\"a".toList, "b\"]]".toList] := by
  decide +kernel

end StackScript
