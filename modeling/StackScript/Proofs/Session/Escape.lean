import StackScript.Proofs.Session.Words
import StackScript.Proofs.Value.Written

/-! # What ends a run early

Nearly every failure is recorded, and evaluation goes on. The one exception is a word of a
line that moves a counted number of slots: its reach is computed before the guard is set up,
and it needs the count. A run comes to its end unless it meets such a word on top of a value
that cannot be told as a count.
-/

namespace StackScript

/-- The value cannot be told as a count: it is a text that begins with an integer of too many
digits, or a computed value that has no written form within the limit. -/
def Value.IsUncountable (depth : Nat) : Value → Prop
  | .text t => ∃ numeral,
      integerFront? (if Text.isStringLiteral t then Text.content t else t) = some numeral ∧
        Numeral.digitLimit < (Numeral.splitSign numeral).2.length
  | .number _ => False
  | v => ∃ fault, v.render depth = .error fault

namespace Value

variable {depth : Nat}

theorem leadingInt_eq_error_iff {t : Text} :
    (∃ fault, leadingInt t = .error fault) ↔
      ∃ numeral, integerFront? t = some numeral ∧
        Numeral.digitLimit < (Numeral.splitSign numeral).2.length := by
  unfold leadingInt
  cases integerFront? t with
  | none => simp
  | some numeral =>
      simp only [Option.some.injEq, exists_eq_left', Number.readInt]
      split <;> simp_all

/-- A text that opens like no integer stands for zero. -/
theorem leadingInt_cons {c : Char} (hc : Text.isBlank c = false ∧ c.isDigit = false ∧ c ≠ '+' ∧
    c ≠ '-') (rest : Text) : leadingInt (c :: rest) = .ok 0 := by
  obtain ⟨hblank, hdigit, hplus, hminus⟩ := hc
  simp [leadingInt, integerFront?, hblank, hdigit, hplus, hminus]

/-- The written form of a value that is neither text nor number opens like no integer. -/
theorem leadingInt_render {v : Value} {t : Text} (htext : ∀ u, v ≠ .text u)
    (hnumber : ∀ n, v ≠ .number n) (hrender : v.render depth = .ok t) : leadingInt t = .ok 0 := by
  by_cases hbool : ∃ b, v = .bool b
  · obtain ⟨b, rfl⟩ := hbool
    rw [render] at hrender
    cases hrender
    cases b <;> decide
  · rw [not_exists] at hbool
    obtain ⟨c, rest, rfl, rfl | rfl⟩ := opener_of_render htext hnumber hbool hrender
    · exact leadingInt_cons (by decide) rest
    · exact leadingInt_cons (by decide) rest

/-- A value has no integer exactly if it is uncountable. -/
theorem toInt_eq_error_iff {v : Value} :
    (∃ fault, v.toInt depth = .error fault) ↔ v.IsUncountable depth := by
  have hwritten (htext : ∀ u, v ≠ .text u) (hnumber : ∀ n, v ≠ .number n) :
      (∃ fault, (do leadingInt (← v.render depth)) = .error fault) ↔
        ∃ fault, v.render depth = .error fault := by
    cases hrender : v.render depth with
    | error fault => simp [bind, Except.bind]
    | ok t => simp [bind, Except.bind, leadingInt_render htext hnumber hrender]
  cases v with
  | text t => exact leadingInt_eq_error_iff
  | number n => cases n <;> simp [toInt, IsUncountable]
  | bool b => exact hwritten nofun nofun
  | null => exact hwritten nofun nofun
  | list items => exact hwritten nofun nofun
  | object fields => exact hwritten nofun nofun

end Value

namespace Evaluation

variable {limit line depth : Nat} {s : Stack}

/-- The words that move a counted number of slots. -/
def IsRolling (token : Text) : Prop := token = "ROLL".toList ∨ token = "ROLLD".toList

theorem countedReach_eq_error_iff {fault : Fault} :
    Operator.countedReach depth s = .error fault ↔
      ∃ top rest, s = top :: rest ∧ top.toInt depth = .error fault := by
  cases s with
  | nil => simp [Operator.countedReach]
  | cons top rest =>
      simp only [Operator.countedReach, List.cons.injEq]
      cases htop : top.toInt depth <;>
        simp [htop, bind, Except.bind, pure, Except.pure]

/-- The reach of a text cannot be told exactly if it rolls by a count that cannot be told. -/
theorem reach_eq_error_iff {t : Text} {fault : Fault} :
    reach depth t s = .error fault ↔
      IsRolling t ∧ ∃ top rest, s = top :: rest ∧ top.toInt depth = .error fault := by
  have hcounted {op : Operator} (hop : op = .roll ∨ op = .rollDown) :
      op.reach depth s = Operator.countedReach depth s := by
    rcases hop with rfl | rfl <;> rfl
  constructor
  · intro hreach
    unfold reach at hreach
    split at hreach
    next hkind =>
      unfold Operator.reachNamed at hreach
      split at hreach
      next op hname =>
        -- all other operators reach a fixed number of slots
        have hop : op = .roll ∨ op = .rollDown := by
          cases op <;> first | exact Or.inl rfl | exact Or.inr rfl | cases hreach
        rw [hcounted hop] at hreach
        refine ⟨?_, countedReach_eq_error_iff.mp hreach⟩
        rw [Operator.ofName?_eq_some] at hname
        rcases hop with rfl | rfl
        · exact Or.inl hname
        · exact Or.inr hname
      next => cases hreach
    next => cases hreach
  · rintro ⟨hrolling, htop⟩
    have hreach := countedReach_eq_error_iff.mpr htop
    rcases hrolling with rfl | rfl
    · exact hreach
    · exact hreach

/-- The guarded run of a word escapes the guard exactly if the word rolls by a count that
cannot be told. -/
theorem attemptWord_eq_error_iff {token : Text} {fault : Fault} :
    attemptWord limit line token s = .error fault ↔
      IsRolling token ∧ ∃ top rest, s = top :: rest ∧ top.toInt limit = .error fault := by
  rw [← reach_eq_error_iff]
  unfold attemptWord
  split
  next hliteral =>
    -- the reach of a word that is neither operator nor value is never asked for
    simp only [Bool.and_eq_true, beq_iff_eq] at hliteral
    simp [reach, hliteral.2]
  next hrun =>
    cases hexecutable : isExecutable token with
    | true =>
        rw [attempt_of_executable hexecutable]
        cases reach limit token s with
        | error fault => simp
        | ok count =>
            simp only
            split <;> simp
    | false =>
        have hnot : ¬ IsRolling token := by
          rintro (rfl | rfl) <;> exact absurd hexecutable (by decide)
        rw [attempt_of_not_executable hexecutable, reach_eq_error_iff]
        simp [hnot]

end Evaluation

namespace Session

open Evaluation

variable {session : Session}

/-- Running the source, the session comes to the word `token` in the state `before`: all lines
and words that precede it have been run. -/
def ComesTo (session : Session) (source : Text) (before : Session) (token : Text) : Prop :=
  ∃ earlier line later reached done rest results,
    Text.lines source = earlier ++ line :: later ∧
    session.runLines earlier = (reached, none) ∧
    Token.texts line = done ++ token :: rest ∧
    (reached.beginLine line).runWords done = (before, .ok results)

theorem runWords_eq_error_iff {tokens : List Text} {before : Session} {fault : Fault} :
    session.runWords tokens = (before, .error fault) ↔
      ∃ done token rest results, tokens = done ++ token :: rest ∧
        session.runWords done = (before, .ok results) ∧ before.step token = .error fault := by
  constructor
  · intro hrun
    induction tokens generalizing session with
    | nil => cases hrun
    | cons token rest ih =>
        cases hstep : session.step token with
        | error escaped =>
            rw [runWords_cons_error hstep] at hrun
            cases hrun
            -- the first word itself escapes
            exact ⟨[], token, rest, [], rfl, rfl, hstep⟩
        | ok reached =>
            obtain ⟨middle, result⟩ := reached
            rw [runWords_cons_ok hstep] at hrun
            rcases hothers : middle.runWords rest with ⟨last, escaped | others⟩
            · rw [hothers] at hrun
              cases hrun
              obtain ⟨done, next, later, results, rfl, hdone, hescape⟩ := ih hothers
              refine ⟨token :: done, next, later, result :: results, rfl, ?_, hescape⟩
              exact runWords_cons_eq_ok.mpr ⟨middle, result, results, hstep, hdone, rfl⟩
            · rw [hothers] at hrun
              cases hrun
  · rintro ⟨done, token, rest, results, rfl, hdone, hescape⟩
    induction done generalizing session results with
    | nil =>
        cases hdone
        exact runWords_cons_error hescape
    | cons first done ih =>
        obtain ⟨middle, result, others, hstep, hothers, rfl⟩ := runWords_cons_eq_ok.mp hdone
        rw [List.cons_append, runWords_cons_ok hstep, ih others hothers]
        rfl

theorem runLines_eq_some_iff {lines : List Text} {before : Session} {fault : Fault} :
    session.runLines lines = (before, some fault) ↔
      ∃ earlier line later reached, lines = earlier ++ line :: later ∧
        session.runLines earlier = (reached, none) ∧
        reached.runLine line = (before, .error fault) := by
  constructor
  · intro hrun
    induction lines generalizing session with
    | nil => cases hrun
    | cons line rest ih =>
        rw [runLines] at hrun
        rcases hline : session.runLine line with ⟨reached, escaped | results⟩
        · rw [hline] at hrun
          cases hrun
          exact ⟨[], line, rest, session, rfl, rfl, hline⟩
        · rw [hline] at hrun
          obtain ⟨earlier, next, later, last, rfl, hearlier, hescape⟩ := ih hrun
          refine ⟨line :: earlier, next, later, last, rfl, ?_, hescape⟩
          rw [runLines, hline]
          exact hearlier
  · rintro ⟨earlier, line, later, reached, rfl, hearlier, hescape⟩
    induction earlier generalizing session with
    | nil =>
        cases hearlier
        rw [List.nil_append, runLines, hescape]
    | cons first earlier ih =>
        rw [runLines] at hearlier
        rcases hfirst : session.runLine first with ⟨middle, escaped | results⟩
        · rw [hfirst] at hearlier
          cases hearlier
        · rw [hfirst] at hearlier
          rw [List.cons_append, runLines, hfirst]
          exact ih hearlier

/-- A run ends early exactly if it comes to a word that rolls by a value which is no count, and
then with the fault of reading the count, in the state before that word. -/
theorem runSource_eq_some_iff {source : Text} {before : Session} {fault : Fault} :
    session.runSource source = (before, some fault) ↔
      ∃ token top rest, session.ComesTo source before token ∧ IsRolling token ∧
        before.stack = top :: rest ∧ top.toInt before.limit = .error fault := by
  rw [runSource, runLines_eq_some_iff]
  constructor
  · rintro ⟨earlier, line, later, reached, hlines, hearlier, hescape⟩
    rw [runLine_eq, runWords_eq_error_iff] at hescape
    obtain ⟨done, token, rest, results, htokens, hdone, hstep⟩ := hescape
    rw [step_eq_error, attemptWord_eq_error_iff] at hstep
    obtain ⟨hrolling, top, below, hstack, htop⟩ := hstep
    exact ⟨token, top, below,
      ⟨earlier, line, later, reached, done, rest, results, hlines, hearlier, htokens, hdone⟩,
      hrolling, hstack, htop⟩
  · rintro ⟨token, top, below, hcomes, hrolling, hstack, htop⟩
    obtain ⟨earlier, line, later, reached, done, rest, results, hlines, hearlier, htokens,
      hdone⟩ := hcomes
    refine ⟨earlier, line, later, reached, hlines, hearlier, ?_⟩
    rw [runLine_eq, runWords_eq_error_iff]
    refine ⟨done, token, rest, results, htokens, hdone, ?_⟩
    rw [step_eq_error, attemptWord_eq_error_iff]
    exact ⟨hrolling, top, below, hstack, htop⟩

/-- A run comes to its end, over all words and lines, exactly if each word that rolls finds a
value on top that can be told as a count. -/
theorem runSource_returns_iff (session : Session) (source : Text) :
    (session.runSource source).2 = none ↔
      ∀ before token, session.ComesTo source before token → IsRolling token →
        ∀ top rest, before.stack = top :: rest → ¬ top.IsUncountable before.limit := by
  constructor
  · intro hreturns before token hcomes hrolling top rest hstack huncountable
    obtain ⟨fault, htop⟩ := Value.toInt_eq_error_iff.mpr huncountable
    have hescape := runSource_eq_some_iff.mpr ⟨token, top, rest, hcomes, hrolling, hstack, htop⟩
    rw [hescape] at hreturns
    cases hreturns
  · intro hcountable
    rcases hrun : session.runSource source with ⟨before, _ | fault⟩
    · rfl
    · obtain ⟨token, top, rest, hcomes, hrolling, hstack, htop⟩ := runSource_eq_some_iff.mp hrun
      have huncountable := Value.toInt_eq_error_iff.mp ⟨fault, htop⟩
      exact absurd huncountable (hcountable before token hcomes hrolling top rest hstack)

/-- A matrix squared until its entry has more digits than can be written cannot be told as a
count. The words behind it are not run. -/
theorem runSource_squares_escapes :
    (({} : Session).runSource
      ("[[10]] DUP * DUP * DUP * DUP * DUP * DUP * DUP * DUP * DUP * DUP * DUP * DUP * DUP * " ++
        "ROLL DROP 7").toList).2 = some .integerTooLong := by
  decide +kernel

end Session

end StackScript
