import StackScript.Operator.Reach
import StackScript.Proofs.Simulation.Operation

/-! # Operators on stacks whose slots serve alike

A relation between values under which they serve alike extends to stacks, slot by slot. No
operator leaves it: on related stacks it fails alike or leaves related stacks, and it may
touch equally many slots.
-/

namespace StackScript

/-- Values related by `V` serve alike whatever depth is left. -/
structure Exchange (either : Prop) (V : Value → Value → Prop) : Prop where
  refl (v : Value) : V v v
  serves {d e : Nat} {v w : Value} : either ∨ d ≤ e → V v w → Serves either d e v w

namespace Applied

/-- Operators did alike if their faults agree and the stacks are related, or if one of them
was cut short. -/
inductive Alike (either : Prop) (V : Value → Value → Prop) : Applied → Applied → Prop
  | first (s y) : Alike either V ⟨s, some .tooDeep⟩ y
  | second (h : either) (x s) : Alike either V x ⟨s, some .tooDeep⟩
  | both {s s'} (h : List.Forall₂ V s s') (fault) : Alike either V ⟨s, fault⟩ ⟨s', fault⟩

/-- Goes on with what was read off the operands, of which `rest` is left, or fails. -/
def next {α : Type} (rest : Stack) (x : Except Fault α) (f : α → Applied) : Applied :=
  match x with
  | .ok a => f a
  | .error fault => ⟨rest, some fault⟩

theorem Alike.next {either : Prop} {V : Value → Value → Prop} {α β : Type} {R : α → β → Prop}
    {rest rest' : Stack} {x : Except Fault α} {y : Except Fault β} {f : α → Applied}
    {g : β → Applied} (h : StackScript.Alike .tooDeep either R x y)
    (hrest : List.Forall₂ V rest rest') (hnext : ∀ a b, R a b → Alike either V (f a) (g b)) :
    Alike either V (next rest x f) (next rest' y g) := by
  cases h with
  | first => exact .first _ _
  | second h => exact .second h _ _
  | error fault => exact .both hrest _
  | ok h => exact hnext _ _ h

end Applied

namespace Operator

variable {either : Prop} {d e : Nat} {V : Value → Value → Prop} {s s' : Stack}

/-! ## Popping operands -/

theorem unary_cons (op : Operator) (f : Value → Except Fault Value) (a : Value) (rest : Stack) :
    unary op f (a :: rest) = .next rest (f a) fun v => ⟨v :: rest, none⟩ := by
  rw [unary]
  cases f a <;> rfl

theorem binary_cons (op : Operator) (f : Value → Value → Except Fault Value) (a b : Value)
    (rest : Stack) :
    binary op f (a :: b :: rest) = .next rest (f b a) fun v => ⟨v :: rest, none⟩ := by
  rw [binary]
  cases f b a <;> rfl

theorem choose_cons (depth : Nat) (condition a b : Value) (rest : Stack) :
    choose depth (condition :: a :: b :: rest) =
      .next rest (condition.toBool depth) fun holds =>
        ⟨(if holds then b else a) :: rest, none⟩ := by
  rw [choose]
  rcases condition.toBool depth with fault | _ | _ <;> rfl

theorem rollBy_cons (depth : Nat) (move : Nat → Stack → Stack) (top : Value) (rest : Stack) :
    rollBy depth move (top :: rest) =
      .next rest (top.toInt depth) fun count =>
        if 0 < count && count ≤ rest.length then ⟨move count.toNat rest, none⟩
        else ⟨rest, none⟩ := by
  rw [rollBy]
  cases top.toInt depth <;> rfl

theorem unary_alike (op : Operator) {f g : Value → Except Fault Value}
    (hf : ∀ a a', V a a' → Alike .tooDeep either V (f a) (g a')) (hs : List.Forall₂ V s s') :
    Applied.Alike either V (unary op f s) (unary op g s') := by
  cases hs with
  | nil => exact .both .nil _
  | cons ha hrest =>
      rw [unary_cons, unary_cons]
      exact Applied.Alike.next (hf _ _ ha) hrest fun v w h => .both (.cons h hrest) _

theorem binary_alike (op : Operator) {f g : Value → Value → Except Fault Value}
    (hf : ∀ b b' a a', V b b' → V a a' → Alike .tooDeep either V (f b a) (g b' a'))
    (hs : List.Forall₂ V s s') :
    Applied.Alike either V (binary op f s) (binary op g s') := by
  match hs with
  | .nil => exact .both .nil _
  | .cons h .nil => exact .both (.cons h .nil) _
  | .cons ha (.cons hb hrest) =>
      rw [binary_cons, binary_cons]
      exact Applied.Alike.next (hf _ _ _ _ hb ha) hrest fun v w h => .both (.cons h hrest) _

theorem choose_alike (hX : Exchange either V) (hdepth : either ∨ d ≤ e)
    (hs : List.Forall₂ V s s') : Applied.Alike either V (choose d s) (choose e s') := by
  match hs with
  | .nil => exact .both .nil _
  | .cons h .nil => exact .both (.cons h .nil) _
  | .cons h (.cons h' .nil) => exact .both (.cons h (.cons h' .nil)) _
  | .cons hcondition (.cons ha (.cons hb hrest)) =>
      rw [choose_cons, choose_cons]
      apply Applied.Alike.next (hX.serves hdepth hcondition).toBool hrest
      rintro holds _ rfl
      refine .both (.cons ?_ hrest) _
      split
      · exact hb
      · exact ha

/-! ## Moving slots -/

theorem swapTop_alike (hs : List.Forall₂ V s s') :
    Applied.Alike either V (swapTop s) (swapTop s') := by
  match hs with
  | .nil => exact .both .nil _
  | .cons h .nil => exact .both (.cons h .nil) _
  | .cons ha (.cons hb hrest) => exact .both (.cons hb (.cons ha hrest)) _

theorem rotateTop_alike (hs : List.Forall₂ V s s') :
    Applied.Alike either V (rotateTop s) (rotateTop s') := by
  match hs with
  | .nil => exact .both .nil _
  | .cons h .nil => exact .both (.cons h .nil) _
  | .cons h (.cons h' .nil) => exact .both (.cons h (.cons h' .nil)) _
  | .cons hc (.cons hb (.cons ha hrest)) => exact .both (.cons ha (.cons hc (.cons hb hrest))) _

theorem raise_related (count : Nat) (hs : List.Forall₂ V s s') :
    List.Forall₂ V (raise count s) (raise count s') := by
  have hmoved := List.forall₂_take count hs
  refine List.rel_append (List.rel_append ?_ ?_) (List.forall₂_drop count hs)
  · exact List.forall₂_drop (count - 1) hmoved
  · exact List.forall₂_take (count - 1) hmoved

theorem lower_related (count : Nat) (hs : List.Forall₂ V s s') :
    List.Forall₂ V (lower count s) (lower count s') := by
  have hmoved := List.forall₂_take count hs
  refine List.rel_append (List.rel_append ?_ ?_) (List.forall₂_drop count hs)
  · exact List.forall₂_drop 1 hmoved
  · exact List.forall₂_take 1 hmoved

theorem rollBy_alike (hX : Exchange either V) (hdepth : either ∨ d ≤ e)
    {move : Nat → Stack → Stack}
    (hmove : ∀ {s s' : Stack} (count : Nat), List.Forall₂ V s s' →
      List.Forall₂ V (move count s) (move count s'))
    (hs : List.Forall₂ V s s') :
    Applied.Alike either V (rollBy d move s) (rollBy e move s') := by
  cases hs with
  | nil => exact .both .nil _
  | cons htop hrest =>
      rw [rollBy_cons, rollBy_cons]
      apply Applied.Alike.next (hX.serves hdepth htop).toInt hrest
      rintro count _ rfl
      rw [← hrest.length_eq]
      split
      · exact .both (hmove _ hrest) _
      · exact .both hrest _

/-! ## All operators -/

/-- An operator on operands that serve alike gives the same value or fails alike. -/
theorem binary_alike_of_eq (hX : Exchange either V) (op : Operator)
    {f g : Value → Value → Except Fault Value} (hdepth : either ∨ d ≤ e)
    (hf : ∀ {b b' a a'}, Serves either d e b b' → Serves either d e a a' →
      Alike .tooDeep either Eq (f b a) (g b' a'))
    (hs : List.Forall₂ V s s') :
    Applied.Alike either V (binary op f s) (binary op g s') := by
  refine binary_alike op (fun b b' a a' hb ha => ?_) hs
  refine (hf (hX.serves hdepth hb) (hX.serves hdepth ha)).mono fun v w h => ?_
  rw [h]
  exact hX.refl w

theorem apply_alike (hX : Exchange either V) (hdepth : either ∨ d ≤ e) (op : Operator)
    (hs : List.Forall₂ V s s') : Applied.Alike either V (op.apply d s) (op.apply e s') := by
  cases op with
  | arithmetic operation =>
      cases operation with
      | add => exact binary_alike_of_eq hX _ hdepth Operation.add_alike hs
      | multiply => exact binary_alike_of_eq hX _ hdepth Operation.multiply_alike hs
      | subtract | divide | power | modulo =>
          exact binary_alike_of_eq hX _ hdepth
            (fun hb ha => Operation.arithmetic_alike hb ha _) hs
  | drop => exact .both (List.forall₂_drop 1 hs) _
  | dup => exact .both (List.rel_append (List.forall₂_take 1 hs) hs) _
  | swap => exact swapTop_alike hs
  | rot => exact rotateTop_alike hs
  | roll => exact rollBy_alike hX hdepth raise_related hs
  | rollDown => exact rollBy_alike hX hdepth lower_related hs
  | compare relation =>
      exact binary_alike_of_eq hX _ hdepth
        (fun hb ha => Operation.compare_alike hb ha relation) hs
  | order => exact binary_alike_of_eq hX _ hdepth Operation.order_alike hs
  | and => exact binary_alike_of_eq hX _ hdepth Operation.and_alike hs
  | or => exact binary_alike_of_eq hX _ hdepth Operation.or_alike hs
  | xor => exact binary_alike_of_eq hX _ hdepth Operation.exclusiveOr_alike hs
  | ifElse => exact choose_alike hX hdepth hs
  | shiftLeft => exact binary_alike_of_eq hX _ hdepth Operation.shiftLeft_alike hs
  | shiftRight => exact binary_alike_of_eq hX _ hdepth Operation.shiftRight_alike hs
  | cross => exact binary_alike_of_eq hX _ hdepth Operation.crossProduct_alike hs
  | not =>
      refine unary_alike _ (fun a a' ha => ?_) hs
      apply (hX.serves hdepth ha).toBool.bindEq
      intro holds
      exact .ok (hX.refl _)
  | complement =>
      refine unary_alike _ (fun a a' ha => ?_) hs
      apply (hX.serves hdepth ha).toInt.bindEq
      intro n
      exact .ok (hX.refl _)
  | transpose =>
      -- the only operator that may hand its operand on as it is
      refine unary_alike _ (fun a a' ha => ?_) hs
      exact Operation.transposed_alike hX.refl ha (hX.serves hdepth ha)

theorem applyNamed_alike (hX : Exchange either V) (hdepth : either ∨ d ≤ e) (name : Text)
    (hs : List.Forall₂ V s s') :
    Applied.Alike either V (applyNamed d name s) (applyNamed e name s') := by
  unfold applyNamed
  split
  · exact apply_alike hX hdepth _ hs
  · exact .both hs _

/-! ## Reach -/

theorem countedReach_alike (hX : Exchange either V) (hdepth : either ∨ d ≤ e)
    (hs : List.Forall₂ V s s') :
    Alike .tooDeep either Eq (countedReach d s) (countedReach e s') := by
  cases hs with
  | nil => exact .refl _
  | cons htop hrest =>
      apply (hX.serves hdepth htop).toInt.bindEq
      intro count
      rw [hrest.length_eq]
      exact .refl _

theorem reachNamed_alike (hX : Exchange either V) (hdepth : either ∨ d ≤ e) (name : Text)
    (hs : List.Forall₂ V s s') :
    Alike .tooDeep either Eq (reachNamed d name s) (reachNamed e name s') := by
  unfold reachNamed
  split
  next op _ =>
    unfold reach
    split
    · exact countedReach_alike hX hdepth hs
    · exact countedReach_alike hX hdepth hs
    · rw [hs.length_eq]
      exact .refl _
  next =>
    rw [hs.length_eq]
    exact .refl _

end Operator

end StackScript
