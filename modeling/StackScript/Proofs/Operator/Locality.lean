import StackScript.Operator.Reach

/-! # Operators are local

An operator neither reads nor changes what lies below its reach, whether it succeeds or
fails. Saving the slots within its reach is therefore enough to undo it.
-/

namespace StackScript

/-- The result with further slots below it. -/
def Applied.over (applied : Applied) (below : Stack) : Applied :=
  { applied with stack := applied.stack ++ below }

namespace Operator

variable {depth : Nat}

theorem unary_append (op : Operator) (f : Value → Except Fault Value) {s : Stack}
    (hlength : 1 ≤ s.length) (below : Stack) :
    unary op f (s ++ below) = (unary op f s).over below := by
  cases s with
  | nil => simp at hlength
  | cons a rest =>
      simp only [List.cons_append, unary]
      cases f a <;> rfl

theorem binary_append (op : Operator) (f : Value → Value → Except Fault Value) {s : Stack}
    (hlength : 2 ≤ s.length) (below : Stack) :
    binary op f (s ++ below) = (binary op f s).over below := by
  match s, hlength with
  | a :: b :: rest, _ =>
      simp only [List.cons_append, binary]
      cases f b a <;> rfl

theorem choose_append {s : Stack} (hlength : 3 ≤ s.length) (below : Stack) :
    choose depth (s ++ below) = (choose depth s).over below := by
  match s, hlength with
  | condition :: a :: b :: rest, _ =>
      simp only [List.cons_append, choose]
      cases condition.toBool depth with
      | error fault => rfl
      | ok holds => cases holds <;> rfl

theorem swapTop_append {s : Stack} (hlength : 2 ≤ s.length) (below : Stack) :
    swapTop (s ++ below) = (swapTop s).over below := by
  match s, hlength with
  | a :: b :: rest, _ => rfl

theorem rotateTop_append {s : Stack} (hlength : 3 ≤ s.length) (below : Stack) :
    rotateTop (s ++ below) = (rotateTop s).over below := by
  match s, hlength with
  | c :: b :: a :: rest, _ => rfl

theorem raise_append {count : Nat} {s : Stack} (hcount : count ≤ s.length) (below : Stack) :
    raise count (s ++ below) = raise count s ++ below := by
  simp [raise, List.take_append_of_le_length hcount, List.drop_append_of_le_length hcount]

theorem lower_append {count : Nat} {s : Stack} (hcount : count ≤ s.length) (below : Stack) :
    lower count (s ++ below) = lower count s ++ below := by
  simp [lower, List.take_append_of_le_length hcount, List.drop_append_of_le_length hcount]

/-- Moving a counted number of slots is local to the slots that the count speaks of. -/
theorem rollBy_append {move : Nat → Stack → Stack}
    (hmove : ∀ {count : Nat} {s : Stack}, count ≤ s.length → ∀ below,
      move count (s ++ below) = move count s ++ below)
    {s below : Stack} {count : Nat} (hreach : countedReach depth (s ++ below) = .ok count)
    (hcount : count ≤ s.length) :
    rollBy depth move (s ++ below) = (rollBy depth move s).over below := by
  cases s with
  | nil =>
      cases below with
      | nil => rfl
      | cons top rest =>
          -- the count itself would lie below `s`, but the reach includes its slot
          simp only [List.nil_append, countedReach] at hreach
          cases htop : top.toInt depth with
          | error fault => simp [htop, bind, Except.bind] at hreach
          | ok n =>
              simp only [htop, bind, Except.bind, pure, Except.pure, Except.ok.injEq] at hreach
              simp only [List.length_nil, Nat.le_zero] at hcount
              split at hreach <;> omega
  | cons top rest =>
      simp only [List.cons_append, countedReach] at hreach
      simp only [List.cons_append, rollBy]
      cases htop : top.toInt depth with
      | error fault => rfl
      | ok n =>
          simp only [htop, bind, Except.bind, pure, Except.pure, Except.ok.injEq] at hreach
          simp only [List.length_cons, List.length_append] at hcount hreach ⊢
          split at hreach
          next hinside =>
            simp only [Bool.and_eq_true, decide_eq_true_eq] at hinside
            have hrest : n.toNat ≤ rest.length := by omega
            have hsame : n ≤ rest.length := by omega
            simp only [hinside, hsame, decide_true, Bool.and_self, if_true, hmove hrest]
            rfl
          next houtside =>
            -- a count beyond the whole stack is also beyond its upper part
            have hshort : ¬ (decide (0 < n) && decide (n ≤ rest.length)) = true := by
              simp only [Bool.and_eq_true, decide_eq_true_eq] at houtside ⊢
              omega
            rw [if_neg houtside, if_neg hshort]
            rfl

/-- If the slots within the reach of an operator are on `s`, then it does the same to `s`
alone as to `s` on top of other slots, and leaves those alone. -/
theorem apply_append {op : Operator} {s below : Stack} {count : Nat}
    (hreach : op.reach depth (s ++ below) = .ok count) (hcount : count ≤ s.length) :
    op.apply depth (s ++ below) = (op.apply depth s).over below := by
  have hover (applied : Applied) : applied.over [] = applied := by simp [Applied.over]
  by_cases hroll : op = .roll ∨ op = .rollDown
  · rcases hroll with rfl | rfl
    · exact rollBy_append (fun h => raise_append h) hreach hcount
    · exact rollBy_append (fun h => lower_append h) hreach hcount
  · cases below with
    | nil => rw [List.append_nil, hover]
    | cons next below =>
        -- something lies below, so the reach is the arity and `s` holds all operands
        have harity : op.arity ≤ s.length := by
          have hmin : op.reach depth (s ++ next :: below) =
              .ok (min op.arity (s ++ next :: below).length) := by
            cases op <;> first | rfl | simp at hroll
          rw [hmin, Except.ok.injEq] at hreach
          simp only [List.length_append, List.length_cons] at hreach
          omega
        cases op with
        | arithmetic operation => cases operation <;> exact binary_append _ _ harity _
        | drop =>
            have hone : 1 ≤ s.length := harity
            simp only [apply, Applied.over]
            rw [List.drop_append_of_le_length hone]
        | dup =>
            have hone : 1 ≤ s.length := harity
            simp only [apply, Applied.over]
            rw [List.take_append_of_le_length hone, List.append_assoc]
        | swap => exact swapTop_append harity _
        | rot => exact rotateTop_append harity _
        | roll => simp at hroll
        | rollDown => simp at hroll
        | ifElse => exact choose_append harity _
        | not => exact unary_append _ _ harity _
        | complement => exact unary_append _ _ harity _
        | transpose => exact unary_append _ _ harity _
        | _ => exact binary_append _ _ harity _

theorem reach_le {op : Operator} {s : Stack} {count : Nat}
    (hreach : op.reach depth s = .ok count) : count ≤ s.length := by
  by_cases hroll : op = .roll ∨ op = .rollDown
  · have hcounted : countedReach depth s = .ok count := by
      rcases hroll with rfl | rfl <;> exact hreach
    cases s with
    | nil =>
        cases hcounted
        exact Nat.le_refl 0
    | cons top rest =>
        rw [countedReach] at hcounted
        cases htop : top.toInt depth with
        | error fault => simp [htop, bind, Except.bind] at hcounted
        | ok n =>
            simp only [htop, bind, Except.bind, pure, Except.pure, Except.ok.injEq,
              Bool.and_eq_true, decide_eq_true_eq] at hcounted
            simp only [List.length_cons]
            split at hcounted <;> omega
  · have hmin : op.reach depth s = .ok (min op.arity s.length) := by
      cases op <;> first | rfl | simp at hroll
    rw [hmin, Except.ok.injEq] at hreach
    omega

/-- Whatever an operator does, the slots below its reach are still there, at the bottom. -/
theorem drop_reach_suffix {op : Operator} {s : Stack} {count : Nat}
    (hreach : op.reach depth s = .ok count) : s.drop count <:+ (op.apply depth s).stack := by
  have hsplit : s.take count ++ s.drop count = s := List.take_append_drop count s
  have htake : count ≤ (s.take count).length := by
    simp [reach_le hreach]
  have happly : op.apply depth s = (op.apply depth (s.take count)).over (s.drop count) := by
    rw [← apply_append (by rw [hsplit, hreach]) htake, hsplit]
  rw [happly]
  exact List.suffix_append _ _

/-- However the slots of a stack are divided above and below, as long as those within the reach
of an operator are above, the operator does to the stack what it does to the upper part alone:
it succeeds on both or fails on both for the same reason, and the lower part stays where it is.
So it leaves every slot below its reach alone, also when it fails. -/
theorem applyNamed_local {name : Text} {op : Operator} {s above below : Stack} {count : Nat}
    (hname : ofName? name = some op) (hreach : reachNamed depth name s = .ok count)
    (hsplit : s = above ++ below) (hcount : count ≤ above.length) :
    (applyNamed depth name s).fault = (applyNamed depth name above).fault ∧
      (applyNamed depth name s).stack = (applyNamed depth name above).stack ++ below ∧
      s.drop count <:+ (applyNamed depth name s).stack := by
  have hop (s : Stack) : applyNamed depth name s = op.apply depth s := by
    simp only [applyNamed, hname]
  have hreach' : op.reach depth s = .ok count := by
    simpa only [reachNamed, hname] using hreach
  rw [hop, hop]
  have hbelow := drop_reach_suffix hreach'
  subst hsplit
  rw [apply_append hreach' hcount] at hbelow ⊢
  exact ⟨rfl, rfl, hbelow⟩

/-- A text on top of three more slots is a count that moves two of them. The slot below these
two takes no part. -/
theorem applyNamed_local_roll :
    let above : Stack := [.text "2".toList, .text "b".toList, .text "a".toList]
    let below : Stack := [.bool true]
    reachNamed 9 "ROLL".toList (above ++ below) = .ok 3 ∧
      (applyNamed 9 "ROLL".toList (above ++ below)).fault = none ∧
      (applyNamed 9 "ROLL".toList (above ++ below)).stack =
        [.text "a".toList, .text "b".toList, .bool true] := by
  intro above below
  have hname : ofName? "ROLL".toList = some .roll := by decide
  have hreach : reachNamed 9 "ROLL".toList (above ++ below) = .ok 3 := rfl
  obtain ⟨hfault, hstack, -⟩ := applyNamed_local hname hreach rfl (Nat.le_refl 3)
  exact ⟨hreach, hfault, hstack⟩

end Operator

end StackScript
