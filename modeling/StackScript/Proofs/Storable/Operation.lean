import StackScript.Operator.Apply
import StackScript.Proofs.Simulation.Operator
import StackScript.Proofs.Storable.Value

/-! # Operators on storable slots

Whatever an operator pushes may be held by a slot: products of matrices hold numbers only, even
where a matrix text spelled other things, sums of arrays hold no truth value, and a joined or
repeated string breaks no line if its parts do not.
-/

namespace StackScript

namespace Matrix

variable {depth : Nat}

theorem vectorValue_composed (entries : List Number) : (vectorValue entries).IsComposed False := by
  refine .list fun v hv => ?_
  obtain ⟨n, _, rfl⟩ := List.mem_map.mp hv
  exact .number n

theorem matrixValue_composed (m : List (List Number)) : (matrixValue m).IsComposed False := by
  refine .list fun v hv => ?_
  obtain ⟨row, _, rfl⟩ := List.mem_map.mp hv
  exact vectorValue_composed row

theorem dot_storable (left right : List Value) :
    Yields Value.IsStorable (dot depth left right) :=
  Yields.next fun _ => Yields.next fun _ => Yields.next fun _ => Yields.next fun n =>
    .ok (Value.isStorable_number n)

theorem mulVector_storable (matrix vector : List Value) :
    Yields Value.IsStorable (mulVector depth matrix vector) := by
  refine Yields.next fun m => Yields.next fun v => ?_
  split
  · exact .error _
  · exact Yields.next fun _ => Yields.next fun entries => .ok (.composed (vectorValue_composed entries))

theorem mul_storable (left right : List Value) :
    Yields Value.IsStorable (mul depth left right) := by
  refine Yields.next fun l => Yields.next fun r => ?_
  split
  · exact .error _
  · exact Yields.next fun _ => Yields.next fun m => .ok (.composed (matrixValue_composed m))

theorem transpose_storable (matrix : List Value) :
    Yields Value.IsStorable (transpose depth matrix) :=
  Yields.next fun _ => Yields.next fun m => .ok (.composed (matrixValue_composed (columns m)))

theorem cross_storable (left right : List Value) :
    Yields Value.IsStorable (cross depth left right) := by
  unfold cross
  split
  · exact .error _
  · refine Yields.next fun l => Yields.next fun r => Yields.next fun precision => ?_
    split
    · exact Yields.next fun _ => Yields.next fun _ => Yields.next fun _ =>
        .ok (.composed (vectorValue_composed _))
    · exact .error _

end Matrix

/-! ## Operations -/

namespace Operation

variable {depth : Nat} {b a : Value}

theorem unaddable_fails (v w : Value) :
    Yields (Value.IsComposed False)
      (do .error (.unaddable (← v.inspect depth) (← w.inspect depth)) : Except Fault Value) :=
  Yields.next fun _ => Yields.next fun _ => .error _

/-- A sum of elements holds no truth value, although its summands may. -/
theorem addElements_composed (depth : Nat) {v w : Value} (hv : v.IsComposed True)
    (hw : w.IsComposed True) : Yields (Value.IsComposed False) (addElements depth v w) := by
  induction depth using Nat.strongRecOn generalizing v w with
  | ind depth ih =>
    cases hv with
    | list hxs =>
        cases hw with
        | list hys =>
            match depth with
            | 0 | 1 => exact .error _
            | depth + 2 =>
                simp only [addElements]
                refine Yields.bind (Yields.mapM fun pair hpair => ?_) fun sums hsums =>
                  .ok (.list hsums)
                have hmem := List.of_mem_zip hpair
                exact ih depth (by omega) (hxs _ hmem.1) (hys _ hmem.2)
        | _ =>
            simp only [addElements]
            exact unaddable_fails _ _
    | number m =>
        cases hw with
        | number n =>
            simp only [addElements]
            exact Yields.next fun sum => .ok (.number sum)
        | _ =>
            simp only [addElements]
            exact unaddable_fails _ _
    | text ht =>
        cases hw with
        | text hu =>
            simp only [addElements]
            exact .ok (.text ((ht.subset (Text.content_subset _)).append
              (hu.subset (Text.content_subset _))))
        | _ =>
            simp only [addElements]
            exact unaddable_fails _ _
    | bool =>
        simp only [addElements]
        exact unaddable_fails _ _

theorem arithmetic_storable (operation : Arithmetic) :
    Yields Value.IsStorable (arithmetic depth operation b a) :=
  Yields.next fun _ => Yields.next fun _ => Yields.next fun n =>
    .ok (Value.isStorable_number n)

theorem isUnbroken_of_stringContent? {v : Value} {content : Text} (hv : v.IsStorable)
    (hcontent : stringContent? v = some content) : Text.IsUnbroken content := by
  cases v with
  | text t =>
      simp only [stringContent?, Option.ite_none_right_eq_some, Option.some.injEq] at hcontent
      rw [← hcontent.2]
      exact (Value.isStorable_text.mp hv).subset (Text.content_subset t)
  | _ => cases hcontent

theorem add_storable (hb : b.IsStorable) (ha : a.IsStorable) :
    Yields Value.IsStorable (add depth b a) := by
  unfold add
  simp only
  split
  · refine (Value.asList_array_composed _ hb).bind fun left hleft => ?_
    refine (Value.asList_array_composed _ ha).bind fun right hright => ?_
    intro sum hsum
    exact .composed (addElements_composed depth (.list hleft) (.list hright) sum hsum)
  · split
    next left right hleft hright =>
      have hjoined := (isUnbroken_of_stringContent? hb hleft).append
        (isUnbroken_of_stringContent? ha hright)
      exact .ok (Value.isStorable_text.mpr hjoined.quote)
    next => exact arithmetic_storable .add

theorem repeatText_unbroken {t : Text} (ht : Text.IsUnbroken t) (count : Int) :
    Yields Text.IsUnbroken (repeatText t count) := by
  unfold repeatText
  split
  · exact .error _
  · split
    · exact .error _
    · split
      · exact .error _
      · split
        · exact .ok .nil
        · exact .ok (ht.flatten_replicate _)

theorem multiply_storable (hb : b.IsStorable) :
    Yields Value.IsStorable (multiply depth b a) := by
  unfold multiply
  simp only
  split
  · exact Yields.next fun _ => Yields.next fun _ => Matrix.mulVector_storable _ _
  · split
    · exact Yields.next fun _ => Yields.next fun _ => Matrix.mul_storable _ _
    · split
      · exact Yields.next fun _ => Yields.next fun _ => Matrix.dot_storable _ _
      · split
        next content _ hcontent _ =>
          have hunbroken := isUnbroken_of_stringContent? hb hcontent
          refine Yields.next fun _ => Yields.next fun count => ?_
          refine (repeatText_unbroken hunbroken count).bind fun t ht => ?_
          exact .ok (Value.isStorable_text.mpr ht.quote)
        next => exact arithmetic_storable .multiply

theorem order_storable : Yields Value.IsStorable (order depth b a) :=
  Yields.next fun _ => Yields.next fun _ => Yields.next fun _ =>
    .ok (Value.isStorable_number _)

theorem exclusiveOr_storable : Yields Value.IsStorable (exclusiveOr depth b a) := by
  unfold exclusiveOr
  split
  · exact Yields.next fun _ => Yields.next fun _ => .ok (.bool _)
  · exact Yields.next fun _ => Yields.next fun _ => .ok (Value.isStorable_number _)

theorem and_storable : Yields Value.IsStorable (Operation.and depth b a) := by
  refine Yields.next fun holds => ?_
  split
  · exact Yields.next fun _ => .ok (.bool _)
  · exact .ok (.bool _)

theorem or_storable : Yields Value.IsStorable (Operation.or depth b a) := by
  refine Yields.next fun holds => ?_
  split
  · exact .ok (.bool _)
  · exact Yields.next fun _ => .ok (.bool _)

theorem shiftLeft_storable : Yields Value.IsStorable (shiftLeft depth b a) :=
  Yields.next fun _ => Yields.next fun _ => Yields.next fun _ =>
    .ok (Value.isStorable_number _)

theorem shiftRight_storable : Yields Value.IsStorable (shiftRight depth b a) :=
  Yields.next fun _ => Yields.next fun _ => Yields.next fun _ =>
    .ok (Value.isStorable_number _)

theorem crossProduct_storable : Yields Value.IsStorable (crossProduct depth b a) :=
  Yields.next fun _ => Yields.next fun _ => Matrix.cross_storable _ _

theorem transposed_storable (ha : a.IsStorable) : Yields Value.IsStorable (transposed depth a) := by
  simp only [transposed]
  split
  · refine Yields.next fun converted => ?_
    split
    · exact Matrix.transpose_storable _
    · exact .ok ha
  · exact .ok ha

end Operation

/-! ## Operators -/

/-- Every slot holds what a slot may hold. -/
def Stack.IsStorable (s : Stack) : Prop := ∀ v ∈ s, v.IsStorable

namespace Stack.IsStorable

variable {s s' : Stack} {v : Value}

theorem nil : IsStorable [] := List.forall_mem_nil _

theorem cons (hv : v.IsStorable) (hs : s.IsStorable) : IsStorable (v :: s) :=
  List.forall_mem_cons.mpr ⟨hv, hs⟩

theorem head (hs : IsStorable (v :: s)) : v.IsStorable := hs v List.mem_cons_self

theorem tail (hs : IsStorable (v :: s)) : s.IsStorable := (List.forall_mem_cons.mp hs).2

theorem append (hs : s.IsStorable) (hs' : s'.IsStorable) : IsStorable (s ++ s') :=
  List.forall_mem_append.mpr ⟨hs, hs'⟩

theorem take (hs : s.IsStorable) (count : Nat) : IsStorable (s.take count) :=
  fun v hv => hs v (List.mem_of_mem_take hv)

theorem drop (hs : s.IsStorable) (count : Nat) : IsStorable (s.drop count) :=
  fun v hv => hs v (List.mem_of_mem_drop hv)

end Stack.IsStorable

theorem Applied.next_storable {α : Type} {rest : Stack} {x : Except Fault α} {f : α → Applied}
    {P : α → Prop} (hrest : rest.IsStorable) (hx : Yields P x)
    (hf : ∀ a, P a → (f a).stack.IsStorable) : (Applied.next rest x f).stack.IsStorable := by
  cases x with
  | error fault => exact hrest
  | ok a => exact hf a (hx a rfl)

namespace Operator

variable {depth : Nat} {s : Stack}

theorem unary_storable (op : Operator) {f : Value → Except Fault Value}
    (hf : ∀ a, a.IsStorable → Yields Value.IsStorable (f a)) (hs : s.IsStorable) :
    (unary op f s).stack.IsStorable := by
  match s with
  | [] => exact hs
  | a :: rest =>
      rw [unary_cons]
      exact Applied.next_storable hs.tail (hf a hs.head) fun v hv => hs.tail.cons hv

theorem binary_storable (op : Operator) {f : Value → Value → Except Fault Value}
    (hf : ∀ b a, b.IsStorable → a.IsStorable → Yields Value.IsStorable (f b a))
    (hs : s.IsStorable) : (binary op f s).stack.IsStorable := by
  match s with
  | [] | [_] => exact hs
  | a :: b :: rest =>
      rw [binary_cons]
      exact Applied.next_storable hs.tail.tail (hf b a hs.tail.head hs.head) fun v hv =>
        hs.tail.tail.cons hv

theorem swapTop_storable (hs : s.IsStorable) : (swapTop s).stack.IsStorable := by
  match s with
  | [] | [_] => exact hs
  | a :: b :: rest => exact .cons hs.tail.head (hs.tail.tail.cons hs.head)

theorem rotateTop_storable (hs : s.IsStorable) : (rotateTop s).stack.IsStorable := by
  match s with
  | [] | [_] | [_, _] => exact hs
  | c :: b :: a :: rest =>
      have hbelow := hs.tail.tail.tail
      exact .cons hs.tail.tail.head (.cons hs.head (hbelow.cons hs.tail.head))

theorem choose_storable (hs : s.IsStorable) : (choose depth s).stack.IsStorable := by
  match s with
  | [] | [_] | [_, _] => exact hs
  | condition :: a :: b :: rest =>
      rw [choose_cons]
      have hbelow := hs.tail.tail.tail
      refine Applied.next_storable (P := fun _ => True) hbelow (fun _ _ => trivial) fun holds _ => ?_
      refine hbelow.cons ?_
      split
      · exact hs.tail.tail.head
      · exact hs.tail.head

theorem raise_storable (count : Nat) (hs : s.IsStorable) : (raise count s).IsStorable :=
  (((hs.take count).drop _).append ((hs.take count).take _)).append (hs.drop count)

theorem lower_storable (count : Nat) (hs : s.IsStorable) : (lower count s).IsStorable :=
  (((hs.take count).drop _).append ((hs.take count).take _)).append (hs.drop count)

theorem rollBy_storable {move : Nat → Stack → Stack}
    (hmove : ∀ {s : Stack} (count : Nat), s.IsStorable → (move count s).IsStorable)
    (hs : s.IsStorable) : (rollBy depth move s).stack.IsStorable := by
  match s with
  | [] => exact hs
  | top :: rest =>
      rw [rollBy_cons]
      refine Applied.next_storable (P := fun _ => True) hs.tail (fun _ _ => trivial) fun count _ => ?_
      split
      · exact hmove _ hs.tail
      · exact hs.tail

/-- No operator puts anything on a stack that no slot may hold, whether it fails or not. -/
theorem apply_storable (op : Operator) (hs : s.IsStorable) :
    (op.apply depth s).stack.IsStorable := by
  cases op with
  | arithmetic operation =>
      cases operation with
      | add => exact binary_storable _ (fun b a hb ha => Operation.add_storable hb ha) hs
      | multiply => exact binary_storable _ (fun b a hb _ => Operation.multiply_storable hb) hs
      | subtract | divide | power | modulo =>
          exact binary_storable _ (fun b a _ _ => Operation.arithmetic_storable _) hs
  | drop => exact hs.drop 1
  | dup => exact (hs.take 1).append hs
  | swap => exact swapTop_storable hs
  | rot => exact rotateTop_storable hs
  | roll => exact rollBy_storable raise_storable hs
  | rollDown => exact rollBy_storable lower_storable hs
  | compare relation =>
      exact binary_storable _ (fun b a _ _ =>
        Yields.next fun comparands => Yields.next fun holds => .ok (.bool holds)) hs
  | order => exact binary_storable _ (fun b a _ _ => Operation.order_storable) hs
  | and => exact binary_storable _ (fun b a _ _ => Operation.and_storable) hs
  | or => exact binary_storable _ (fun b a _ _ => Operation.or_storable) hs
  | xor => exact binary_storable _ (fun b a _ _ => Operation.exclusiveOr_storable) hs
  | ifElse => exact choose_storable hs
  | shiftLeft => exact binary_storable _ (fun b a _ _ => Operation.shiftLeft_storable) hs
  | shiftRight => exact binary_storable _ (fun b a _ _ => Operation.shiftRight_storable) hs
  | not =>
      refine unary_storable _ (fun a _ => Yields.next fun holds => .ok ?_) hs
      exact Value.isStorable_text.mpr (.ofBool _)
  | complement =>
      exact unary_storable _ (fun a _ => Yields.next fun n => .ok (Value.isStorable_number _)) hs
  | cross => exact binary_storable _ (fun b a _ _ => Operation.crossProduct_storable) hs
  | transpose => exact unary_storable _ (fun a ha => Operation.transposed_storable ha) hs

theorem applyNamed_storable (name : Text) (hs : s.IsStorable) :
    (applyNamed depth name s).stack.IsStorable := by
  unfold applyNamed
  split
  · exact apply_storable _ hs
  · exact hs

end Operator

end StackScript
