import Mathlib.Data.List.Rotate
import StackScript.Operator.Apply

/-! # Rotations

`ROLL` and `ROLLD` rotate the slots that a count speaks of, by one place each and in opposite
directions. So each of them undoes the other, and as many rotations as there are slots undo
themselves. A count that does not fit the stack is taken off, and no slot moves.
-/

namespace StackScript.Operator

variable {depth : Nat} {v : Value} {n : Int} {s : Stack}

/-! ## Rotated slots -/

theorem raise_length_append (moved below : Stack) :
    raise moved.length (moved ++ below) = moved.rotate (moved.length - 1) ++ below := by
  rw [raise, List.take_left, List.drop_left,
    List.rotate_eq_drop_append_take (Nat.sub_le moved.length 1)]

theorem lower_length_append (moved below : Stack) :
    lower moved.length (moved ++ below) = moved.rotate 1 ++ below := by
  rw [lower, List.take_left, List.drop_left]
  cases moved with
  | nil => rfl
  | cons v rest => rw [List.rotate_eq_drop_append_take (by simp)]

/-- The slots that a count speaks of, apart from those below them. -/
theorem exists_append_of_le {count : Nat} (hcount : count ≤ s.length) :
    ∃ moved below, s = moved ++ below ∧ moved.length = count :=
  ⟨s.take count, s.drop count, (List.take_append_drop count s).symm,
    List.length_take_of_le hcount⟩

theorem rotate_one_rotate_pred (moved : Stack) :
    (moved.rotate (moved.length - 1)).rotate 1 = moved ∧
      (moved.rotate 1).rotate (moved.length - 1) = moved := by
  rw [List.rotate_rotate, List.rotate_rotate]
  cases moved with
  | nil => simp
  | cons v rest =>
      have hlength : (v :: rest).length - 1 + 1 = (v :: rest).length := rfl
      rw [Nat.add_comm 1, hlength, List.rotate_length]
      exact ⟨rfl, rfl⟩

theorem length_raise (count : Nat) (s : Stack) : (raise count s).length = s.length := by
  simp only [raise, List.length_append, List.length_drop, List.length_take]
  omega

theorem length_lower (count : Nat) (s : Stack) : (lower count s).length = s.length := by
  simp only [lower, List.length_append, List.length_drop, List.length_take]
  omega

theorem lower_raise {count : Nat} (hcount : count ≤ s.length) :
    lower count (raise count s) = s := by
  obtain ⟨moved, below, rfl, rfl⟩ := exists_append_of_le hcount
  rw [raise_length_append]
  have hlower := lower_length_append (moved.rotate (moved.length - 1)) below
  rw [List.length_rotate] at hlower
  rw [hlower, (rotate_one_rotate_pred moved).1]

theorem raise_lower {count : Nat} (hcount : count ≤ s.length) :
    raise count (lower count s) = s := by
  obtain ⟨moved, below, rfl, rfl⟩ := exists_append_of_le hcount
  rw [lower_length_append]
  have hraise := raise_length_append (moved.rotate 1) below
  rw [List.length_rotate] at hraise
  rw [hraise, (rotate_one_rotate_pred moved).2]

/-- A single slot moves, from below the others to the top of them. -/
theorem raise_succ {count : Nat} (hcount : count < s.length) :
    raise (count + 1) s = s[count] :: s.eraseIdx count := by
  have hlast : (s.take (count + 1)).drop count = [s[count]] := by
    rw [List.take_succ_eq_append_getElem hcount, List.drop_left' (List.length_take_of_le hcount.le)]
  rw [raise, Nat.add_sub_cancel, hlast, List.take_take, Nat.min_eq_left (Nat.le_succ count),
    List.eraseIdx_eq_take_drop_succ]
  rfl

/-- Raising a slot again and again rotates the slots further and further. -/
theorem iterate_raise (moved below : Stack) (times : Nat) :
    (raise moved.length)^[times] (moved ++ below) =
      moved.rotate (times * (moved.length - 1)) ++ below := by
  induction times with
  | zero => simp
  | succ times ih =>
      have hraise := raise_length_append (moved.rotate (times * (moved.length - 1))) below
      rw [List.length_rotate] at hraise
      rw [Function.iterate_succ_apply', ih, hraise, List.rotate_rotate, Nat.succ_mul]

theorem iterate_raise_self {count : Nat} (hcount : count ≤ s.length) :
    (raise count)^[count] s = s := by
  obtain ⟨moved, below, rfl, rfl⟩ := exists_append_of_le hcount
  rw [iterate_raise, List.rotate_length_mul]

/-! ## Counts on the stack -/

theorem rollBy_of_inside {move : Nat → Stack → Stack} (hv : v.toInt depth = .ok n) (hpos : 0 < n)
    (hle : n ≤ s.length) : rollBy depth move (v :: s) = ⟨move n.toNat s, none⟩ := by
  simp only [rollBy, hv, hpos, hle, decide_true, Bool.and_self, if_true]

theorem rollBy_of_outside {move : Nat → Stack → Stack} (hv : v.toInt depth = .ok n)
    (houtside : ¬ (0 < n ∧ n ≤ s.length)) : rollBy depth move (v :: s) = ⟨s, none⟩ := by
  have hstays : ¬ (decide (0 < n) && decide (n ≤ s.length)) = true := by
    simpa only [Bool.and_eq_true, decide_eq_true_eq] using houtside
  rw [rollBy, hv]
  exact if_neg hstays

/-- If one way to move slots undoes another, then so do the operators, given the same count
twice. -/
theorem rollBy_rollBy {move back : Nat → Stack → Stack} {w : Value}
    (hlength : ∀ count s, (move count s).length = s.length)
    (hback : ∀ {count : Nat} {s : Stack}, count ≤ s.length → back count (move count s) = s)
    (hv : v.toInt depth = .ok n) (hw : w.toInt depth = .ok n) (s : Stack) :
    ∃ moved, rollBy depth move (v :: s) = ⟨moved, none⟩ ∧
      rollBy depth back (w :: moved) = ⟨s, none⟩ := by
  by_cases hinside : 0 < n ∧ n ≤ s.length
  · obtain ⟨hpos, hle⟩ := hinside
    refine ⟨move n.toNat s, rollBy_of_inside hv hpos hle, ?_⟩
    have hle' : n ≤ (move n.toNat s).length := by rwa [hlength]
    rw [rollBy_of_inside hw hpos hle', hback (by omega)]
  · exact ⟨s, rollBy_of_outside hv hinside, rollBy_of_outside hw hinside⟩

/-- Pushes one count after the other and lets `ROLL` take each. -/
def rollAll (depth : Nat) : List Value → Stack → Applied
  | [], s => ⟨s, none⟩
  | v :: rest, s =>
      match apply depth .roll (v :: s) with
      | ⟨s', none⟩ => rollAll depth rest s'
      | failed => failed

theorem rollAll_of_inside {counts : List Value} (hcounts : ∀ v ∈ counts, v.toInt depth = .ok n)
    (hpos : 0 < n) (hle : n ≤ s.length) :
    rollAll depth counts s = ⟨(raise n.toNat)^[counts.length] s, none⟩ := by
  induction counts generalizing s with
  | nil => rfl
  | cons v rest ih =>
      obtain ⟨hv, hrest⟩ := List.forall_mem_cons.mp hcounts
      have hroll : apply depth .roll (v :: s) = ⟨raise n.toNat s, none⟩ :=
        rollBy_of_inside hv hpos hle
      have hle' : n ≤ (raise n.toNat s).length := by rwa [length_raise]
      rw [rollAll, hroll]
      exact ih hrest hle'

/-- Whatever the count is and however it is written, `ROLL` and `ROLLD` undo each other, and
neither fails. A count from one to the number of slots makes `ROLL` take out that slot and put
it on top, so that rolling as often as the count says brings all slots back, and makes it
`SWAP` or `ROT` if it is two or three. Any other count is taken off, and that is all. -/
theorem roll_rollDown {v w : Value} {n : Int} (hv : v.toInt depth = .ok n)
    (hw : w.toInt depth = .ok n) (s : Stack) :
    (∃ rolled, apply depth .roll (v :: s) = ⟨rolled, none⟩ ∧
      apply depth .rollDown (w :: rolled) = ⟨s, none⟩) ∧
    (∃ rolled, apply depth .rollDown (v :: s) = ⟨rolled, none⟩ ∧
      apply depth .roll (w :: rolled) = ⟨s, none⟩) ∧
    (∀ (index : Nat) (hindex : index < s.length), n = index + 1 →
      apply depth .roll (v :: s) = ⟨s[index] :: s.eraseIdx index, none⟩ ∧
      ∀ counts : List Value, counts.length = index + 1 →
        (∀ count ∈ counts, count.toInt depth = .ok n) → rollAll depth counts s = ⟨s, none⟩) ∧
    (n ≤ 0 ∨ s.length < n →
      apply depth .roll (v :: s) = ⟨s, none⟩ ∧ apply depth .rollDown (v :: s) = ⟨s, none⟩) ∧
    (n = 2 → 2 ≤ s.length → apply depth .swap s = apply depth .roll (v :: s)) ∧
    (n = 3 → 3 ≤ s.length → apply depth .rot s = apply depth .roll (v :: s)) := by
  refine ⟨rollBy_rollBy length_raise lower_raise hv hw s,
    rollBy_rollBy length_lower raise_lower hv hw s, ?_, ?_, ?_, ?_⟩
  · rintro index hindex rfl
    have hpos : (0 : Int) < index + 1 := by omega
    have hle : (index + 1 : Int) ≤ s.length := by omega
    have hroll : apply depth .roll (v :: s) = ⟨raise (index + 1) s, none⟩ :=
      rollBy_of_inside hv hpos hle
    refine ⟨by rw [hroll, raise_succ hindex], fun counts hlength hcounts => ?_⟩
    have hback : (raise (index + 1 : Int).toNat)^[index + 1] s = s := iterate_raise_self hindex
    rw [rollAll_of_inside hcounts hpos hle, hlength, hback]
  · intro houtside
    have houtside' : ¬ (0 < n ∧ n ≤ s.length) := by omega
    exact ⟨rollBy_of_outside hv houtside', rollBy_of_outside hv houtside'⟩
  · rintro rfl hlength
    have hroll : apply depth .roll (v :: s) = ⟨raise 2 s, none⟩ :=
      rollBy_of_inside hv (by decide) (by omega)
    match s, hlength with
    | a :: b :: rest, _ => exact hroll.symm
  · rintro rfl hlength
    have hroll : apply depth .roll (v :: s) = ⟨raise 3 s, none⟩ :=
      rollBy_of_inside hv (by decide) (by omega)
    match s, hlength with
    | c :: b :: a :: rest, _ => exact hroll.symm

/-- A text that begins with the count serves as well as the number. -/
theorem roll_rollDown_text :
    let s : Stack := [.text "a".toList, .text "b".toList, .text "c".toList, .bool true]
    let three : Value := .text " +3rd".toList
    (∃ rolled, apply 9 .roll (three :: s) = ⟨rolled, none⟩ ∧
      apply 9 .rollDown (.ofInt 3 :: rolled) = ⟨s, none⟩) ∧
    rollAll 9 [three, .ofInt 3, three] s = ⟨s, none⟩ := by
  intro s three
  have htext : three.toInt 9 = .ok 3 := by decide +kernel
  have hnumber : (Value.ofInt 3).toInt 9 = .ok 3 := rfl
  obtain ⟨hundone, -, hinside, -⟩ := roll_rollDown htext hnumber s
  refine ⟨hundone, (hinside 2 (by decide) rfl).2 _ rfl ?_⟩
  simp [htext, hnumber]

end StackScript.Operator
