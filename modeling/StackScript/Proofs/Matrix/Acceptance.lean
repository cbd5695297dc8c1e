import StackScript.Proofs.Matrix.Product
import StackScript.Proofs.Value.Levels
import StackScript.Session

/-! # Operands of products

Whatever values stand in the operands of a product, it is computed if and only if they are integers
in the shape that it needs. All other operands are refused before anything is computed, with a
fault of shape or of operand type, or because an entry has more levels of nesting than can be shown
in the message of such a fault.
-/

namespace StackScript

/-! ## Computations that settle a condition -/

/-- A result has one property, or a fault the other. -/
inductive Settles {ε α : Type} (P : α → Prop) (Q : ε → Prop) : Except ε α → Prop
  | ok {a} (h : P a) : Settles P Q (.ok a)
  | error {e} (h : Q e) : Settles P Q (.error e)

namespace Settles

variable {ε α β : Type} {P : α → Prop} {P' : β → Prop} {Q Q' : ε → Prop} {x : Except ε α}

theorem bind {f : α → Except ε β} (hx : Settles P Q x) (hf : ∀ a, P a → Settles P' Q (f a)) :
    Settles P' Q (x >>= f) := by
  cases hx with
  | ok h => exact hf _ h
  | error h => exact .error h

theorem imp {P' : α → Prop} (hx : Settles P Q x) (hok : ∀ a, P a → P' a)
    (herror : ∀ e, Q e → Q' e) : Settles P' Q' x := by
  cases hx with
  | ok h => exact .ok (hok _ h)
  | error h => exact .error (herror _ h)

end Settles

/-- A fault of shape or of operand type, or one that keeps an entry from being shown in the message
of such a fault. -/
inductive Fault.Refuses (depth : Nat) (entries : List Value) : Fault → Prop
  | shape {fault : Fault} (h : fault.category = .shape) : Refuses depth entries fault
  | operandType {fault : Fault} (h : fault.category = .operandType) : Refuses depth entries fault
  | unshown {fault : Fault} {v : Value} (hv : v ∈ entries) (h : v.inspect depth = .error fault) :
      Refuses depth entries fault

/-- More entries give more reasons to refuse. -/
theorem Settles.among {α : Type} {P : α → Prop} {depth : Nat} {entries others : List Value}
    {x : Except Fault α} (hx : Settles P (Fault.Refuses depth entries) x)
    (hsubset : ∀ v ∈ entries, v ∈ others) : Settles P (Fault.Refuses depth others) x := by
  refine hx.imp (fun _ => id) fun fault h => ?_
  cases h with
  | shape h => exact .shape h
  | operandType h => exact .operandType h
  | unshown hv h => exact .unshown (hsubset _ hv) h

namespace Matrix

/-! ## Entries -/

/-- All elements are integers. Truth values are not. -/
def AreIntegers (items : List Value) : Prop := ∀ v ∈ items, ∃ n : Int, v = .ofInt n

/-- A list of rows, at least one, with `width` integers each. -/
def IsIntegerMatrix (width : Nat) (items : List Value) : Prop :=
  items ≠ [] ∧ ∀ v ∈ items, ∃ row, v = .list row ∧ row.length = width ∧ AreIntegers row

/-- What stands in the rows of a matrix. -/
def rowEntries (items : List Value) : List Value := (items.filterMap items?).flatten

variable {m n : Nat} {items left right : List Value}

theorem areIntegers_iff : AreIntegers items ↔ ∃ xs : List Int, items = xs.map Value.ofInt := by
  constructor
  · intro hitems
    have hmem : items ∈ Set.range (List.map Value.ofInt) := by
      rw [Set.range_list_map]
      exact fun v hv => (hitems v hv).imp fun n hn => hn.symm
    exact hmem.imp fun xs hxs => hxs.symm
  · rintro ⟨xs, rfl⟩ v hv
    obtain ⟨n, -, rfl⟩ := List.mem_map.mp hv
    exact ⟨n, rfl⟩

/-- The lists of rows that linear algebra knows as matrices. -/
theorem isIntegerMatrix_iff : IsIntegerMatrix n items ↔
    ∃ (m : Nat) (A : Matrix (Fin (m + 1)) (Fin n) Int), items = gridOf (tableOf A) := by
  constructor
  · rintro ⟨hne, hitems⟩
    have hmem : items ∈ Set.range (List.map fun row : List Int => Value.list (row.map .ofInt)) := by
      rw [Set.range_list_map]
      intro v hv
      obtain ⟨row, rfl, -, hrow⟩ := hitems v hv
      obtain ⟨xs, rfl⟩ := areIntegers_iff.mp hrow
      exact ⟨xs, rfl⟩
    obtain ⟨table, rfl⟩ := hmem
    have hwidth : ∀ row ∈ table, row.length = n := by
      intro row hrow
      obtain ⟨_, ⟨⟩, hlength, -⟩ := hitems _ (List.mem_map_of_mem hrow)
      rwa [List.length_map] at hlength
    have hpos : table.length = table.length - 1 + 1 := by
      rw [ne_eq, List.map_eq_nil_iff, ← List.length_eq_zero_iff] at hne
      omega
    obtain ⟨A, hA⟩ := exists_tableOf hpos hwidth
    exact ⟨_, A, congrArg gridOf hA⟩
  · rintro ⟨m, A, rfl⟩
    refine ⟨by simp [gridOf, tableOf, List.ofFn_succ], fun v hv => ?_⟩
    obtain ⟨row, hrow, rfl⟩ := List.mem_map.mp hv
    refine ⟨_, rfl, ?_, areIntegers_iff.mpr ⟨row, rfl⟩⟩
    rw [List.length_map, length_of_mem_tableOf hrow]

theorem IsIntegerMatrix.width_unique (h : IsIntegerMatrix m items) (h' : IsIntegerMatrix n items) :
    m = n := by
  obtain ⟨v, hv⟩ := List.exists_mem_of_ne_nil items h.1
  obtain ⟨row, rfl, rfl, -⟩ := h.2 v hv
  obtain ⟨_, ⟨⟩, rfl, -⟩ := h'.2 _ hv
  rfl

theorem length_gridOf (A : Matrix (Fin m) (Fin n) Int) : (gridOf (tableOf A)).length = m := by
  simp [gridOf, tableOf]

/-! ## What is refused -/

/-- Only the positions that both vectors have are looked at. -/
theorem dot_eq_dot_take (depth : Nat) (left right : List Value) :
    dot depth left right = dot depth (left.take (min left.length right.length))
      (right.take (min left.length right.length)) := by
  simp [dot, List.take_take]

theorem numbersFrom_settles (depth : Nat) (place : Place) (index : Nat)
    (hexact : ∀ v ∈ items, v.IsExact) :
    Settles (fun numbers => AreIntegers items ∧ numbers.length = items.length)
      (Fault.Refuses depth items) (numbersFrom depth place index items) := by
  induction items generalizing index with
  | nil => exact .ok ⟨List.forall_mem_nil _, rfl⟩
  | cons v rest ih =>
      obtain ⟨hv, hrest⟩ := List.forall_mem_cons.mp hexact
      have hrefused : Settles (fun numbers => AreIntegers (v :: rest) ∧
          numbers.length = (v :: rest).length) (Fault.Refuses depth (v :: rest))
          (do .error (.notNumeric place index (← v.inspect depth)) :
            Except Fault (List Number)) := by
        cases hshown : v.inspect depth with
        | error fault => exact .error (.unshown List.mem_cons_self hshown)
        | ok shown => exact .error (.operandType rfl)
      cases hv with
      | @int n =>
          rw [Value.ofInt, numbersFrom]
          have hnumbers := (ih (index + 1) hrest).among
            fun w hw => List.mem_cons_of_mem (.ofInt n) hw
          refine hnumbers.bind fun numbers h => .ok ?_
          exact ⟨List.forall_mem_cons.mpr ⟨⟨n, rfl⟩, h.1⟩, congrArg (· + 1) h.2⟩
      | _ =>
          rw [numbersFrom]
          · exact hrefused
          · rintro n ⟨⟩

theorem rowsFrom_settles (depth : Nat) (role : Role) (width index : Nat) {rows : List (List Value)}
    (hexact : ∀ v ∈ rows.flatten, v.IsExact) :
    Settles (fun numbers => (∀ row ∈ rows, row.length = width ∧ AreIntegers row) ∧
      numbers.map List.length = rows.map List.length)
      (Fault.Refuses depth rows.flatten) (rowsFrom depth role width index rows) := by
  induction rows generalizing index with
  | nil => exact .ok ⟨List.forall_mem_nil _, rfl⟩
  | cons row rest ih =>
      rw [List.flatten_cons, List.forall_mem_append] at hexact
      rw [rowsFrom]
      split
      next => exact .error (.shape rfl)
      next hlength =>
        rw [ne_eq, not_not] at hlength
        have hrow := (numbersFrom_settles depth ⟨role, some index⟩ 0 hexact.1).among
          fun v hv => List.mem_append_left rest.flatten hv
        have hrest := (ih (index + 1) hexact.2).among fun v hv => List.mem_append_right row hv
        refine hrow.bind fun numbers hnumbers => hrest.bind fun others hothers => .ok ⟨?_, ?_⟩
        · exact List.forall_mem_cons.mpr ⟨⟨hlength, hnumbers.1⟩, hothers.1⟩
        · rw [List.map_cons, List.map_cons, hnumbers.2, hothers.2]

theorem mapM_items?_eq_some {rows : List (List Value)} (h : items.mapM items? = some rows) :
    items = rows.map .list := by
  induction items generalizing rows with
  | nil =>
      cases h
      rfl
  | cons v rest ih =>
      rw [List.mapM_cons] at h
      simp only [Option.bind_eq_bind, Option.bind_eq_some_iff, Option.pure_def,
        Option.some.injEq] at h
      obtain ⟨row, hrow, others, hothers, rfl⟩ := h
      cases v with
      | list items =>
          cases hrow
          rw [List.map_cons, ih hothers]
      | _ => cases hrow

/-- A matrix is read only if it is one of integers, and then as it is. -/
theorem rows_settles (depth : Nat) (role : Role) (hexact : ∀ v ∈ rowEntries items, v.IsExact) :
    Settles (fun rows => IsIntegerMatrix (width rows) items ∧ rows.length = items.length)
      (Fault.Refuses depth (rowEntries items)) (rows depth role items) := by
  unfold rows
  split
  next first rest hrows =>
    obtain rfl := mapM_items?_eq_some hrows
    have hentries : rowEntries ((first :: rest).map .list) = (first :: rest).flatten := by
      simp [rowEntries, List.filterMap_map, Function.comp_def, items?]
    rw [hentries] at hexact ⊢
    refine (rowsFrom_settles depth role first.length 0 hexact).imp ?_ fun _ => id
    rintro numbers ⟨hrows, hlengths⟩
    have hwidth : width numbers = first.length := by
      cases numbers with
      | nil => cases hlengths
      | cons row others => exact (List.cons.inj hlengths).1
    refine ⟨⟨nofun, fun v hv => ?_⟩, by simpa using congrArg List.length hlengths⟩
    obtain ⟨row, hrow, rfl⟩ := List.mem_map.mp hv
    exact ⟨row, rfl, hwidth ▸ hrows row hrow⟩
  next => exact .error (.shape rfl)

/-! ## What is accepted -/

/-- A computation that is carried out, with a result that does not depend on the depth, if and only
if its operands are accepted. Otherwise it fails for their shape or their type, unless one of their
entries has more levels of nesting than there are nested calls left to show it in the message. -/
structure Guarded (entries : List Value) (compute : Nat → Except Fault Value) (accepted : Prop)
    (result : Value → Prop) : Prop where
  accepts : accepted → ∃ v, result v ∧ ∀ depth, compute depth = .ok v
  refuses : ¬ accepted → ∀ depth, ∃ fault, compute depth = .error fault ∧
    (fault.category = .shape ∨ fault.category = .operandType ∨
      fault = .tooDeep ∧ ∃ v ∈ entries, depth < v.levels)

theorem Guarded.of_settles {compute : Nat → Except Fault Value} {accepted : Prop}
    {result : Value → Prop} {entries : List Value} (hexact : ∀ v ∈ entries, v.IsExact)
    (haccepts : accepted → ∃ v, result v ∧ ∀ depth, compute depth = .ok v)
    (hrefuses : ¬ accepted →
      ∀ depth, Settles (fun _ => False) (Fault.Refuses depth entries) (compute depth)) :
    Guarded entries compute accepted result where
  accepts := haccepts
  refuses := by
    intro hrefused depth
    generalize hcompute : compute depth = computed
    cases hcompute ▸ hrefuses hrefused depth with
    | ok h => exact h.elim
    | @error fault h =>
        refine ⟨fault, rfl, ?_⟩
        cases h with
        | shape h => exact .inl h
        | operandType h => exact .inr (.inl h)
        | unshown hv h =>
            obtain rfl := (hexact _ hv).inspect_fails depth fault h
            exact .inr (.inr ⟨rfl, _, hv, (hexact _ hv).inspect_eq_error_iff.mp h⟩)

section Products

variable (hleft : ∀ v ∈ left, v.IsExact) (hright : ∀ v ∈ right, v.IsExact)

include hleft

theorem isExact_of_mem_rowEntries : ∀ v ∈ rowEntries left, v.IsExact := by
  intro v hv
  obtain ⟨row, hrow, hv⟩ := List.mem_flatten.mp hv
  obtain ⟨w, hw, hrow⟩ := List.mem_filterMap.mp hrow
  cases hleft w hw with
  | list hitems =>
      cases hrow
      exact hitems v hv
  | _ => cases hrow

include hright

theorem dot_guarded :
    Guarded (left.take (min left.length right.length) ++ right.take (min left.length right.length))
      (dot · left right)
      (AreIntegers (left.take (min left.length right.length)) ∧
        AreIntegers (right.take (min left.length right.length)))
      fun v => ∃ n : Int, v = .ofInt n := by
  set terms := min left.length right.length
  have htaken : ∀ v ∈ left.take terms, v.IsExact :=
    fun v hv => hleft v (List.take_subset terms left hv)
  have htaken' : ∀ v ∈ right.take terms, v.IsExact :=
    fun v hv => hright v (List.take_subset terms right hv)
  refine .of_settles (List.forall_mem_append.mpr ⟨htaken, htaken'⟩) ?_ ?_
  · rintro ⟨hints, hints'⟩
    obtain ⟨xs, hxs⟩ := areIntegers_iff.mp hints
    obtain ⟨ys, hys⟩ := areIntegers_iff.mp hints'
    refine ⟨.ofInt (List.zipWith (· * ·) xs ys).sum, ⟨_, rfl⟩, fun depth => ?_⟩
    rw [dot_eq_dot_take, hxs, hys, dot_ofInt]
  · intro hrefused depth
    have hl := (numbersFrom_settles depth ⟨.left, none⟩ 0 htaken).among
      fun v hv => List.mem_append_left (right.take terms) hv
    have hr := (numbersFrom_settles depth ⟨.right, none⟩ 0 htaken').among
      fun v hv => List.mem_append_right (left.take terms) hv
    exact hl.bind fun l hl => hr.bind fun r hr => absurd ⟨hl.1, hr.1⟩ hrefused

theorem mulVector_guarded :
    Guarded (rowEntries left ++ right) (mulVector · left right)
      (IsIntegerMatrix right.length left ∧ AreIntegers right)
      fun v => ∃ entries, v = .list entries ∧ entries.length = left.length ∧
        AreIntegers entries := by
  have hentries := isExact_of_mem_rowEntries hleft
  have hexact : ∀ v ∈ rowEntries left ++ right, v.IsExact :=
    List.forall_mem_append.mpr ⟨hentries, hright⟩
  refine .of_settles hexact ?_ ?_
  · rintro ⟨hmatrix, hvector⟩
    obtain ⟨xs, rfl⟩ := areIntegers_iff.mp hvector
    obtain ⟨n, hn⟩ : ∃ n, xs.length = n := ⟨_, rfl⟩
    rw [List.length_map, hn] at hmatrix
    obtain ⟨m, A, rfl⟩ := isIntegerMatrix_iff.mp hmatrix
    obtain ⟨v, rfl⟩ := exists_ofFn hn
    refine ⟨_, ⟨_, rfl, ?_, areIntegers_iff.mpr ⟨_, rfl⟩⟩, fun depth => mulVector_gridOf depth A v⟩
    rw [length_gridOf, List.length_map, List.length_ofFn]
  · intro hrefused depth
    have hm := (rows_settles depth .matrix hentries).among fun v hv => List.mem_append_left right hv
    have hv := (numbersFrom_settles depth ⟨.vector, none⟩ 0 hright).among
      fun v hv => List.mem_append_right (rowEntries left) hv
    refine hm.bind fun m hm => hv.bind fun v hv => ?_
    split
    next => exact .error (.shape rfl)
    next hwidth =>
      rw [ne_eq, not_not] at hwidth
      rw [hwidth, hv.2] at hm
      exact absurd ⟨hm.1, hv.1⟩ hrefused

theorem mul_guarded :
    Guarded (rowEntries left ++ rowEntries right) (mul · left right)
      (IsIntegerMatrix right.length left ∧ ∃ n, IsIntegerMatrix n right)
      fun v => ∃ rows, v = .list rows ∧ rows.length = left.length ∧
        ∀ n, IsIntegerMatrix n right → IsIntegerMatrix n rows := by
  have hentries := isExact_of_mem_rowEntries hleft
  have hentries' := isExact_of_mem_rowEntries hright
  have hexact : ∀ v ∈ rowEntries left ++ rowEntries right, v.IsExact :=
    List.forall_mem_append.mpr ⟨hentries, hentries'⟩
  refine .of_settles hexact ?_ ?_
  · rintro ⟨hmatrix, n, hmatrix'⟩
    obtain ⟨k, B, rfl⟩ := isIntegerMatrix_iff.mp hmatrix'
    rw [length_gridOf] at hmatrix
    obtain ⟨m, A, rfl⟩ := isIntegerMatrix_iff.mp hmatrix
    refine ⟨_, ⟨_, rfl, ?_, fun n' h => ?_⟩, fun depth => mul_gridOf depth A B⟩
    · rw [length_gridOf, length_gridOf]
    · rw [h.width_unique hmatrix']
      exact isIntegerMatrix_iff.mpr ⟨m, A * B, rfl⟩
  · intro hrefused depth
    have hl := (rows_settles depth .left hentries).among
      fun v hv => List.mem_append_left (rowEntries right) hv
    have hr := (rows_settles depth .right hentries').among
      fun v hv => List.mem_append_right (rowEntries left) hv
    refine hl.bind fun l hl => hr.bind fun r hr => ?_
    split
    next => exact .error (.shape rfl)
    next hwidth =>
      rw [ne_eq, not_not] at hwidth
      rw [hwidth, hr.2] at hl
      exact absurd ⟨hl.1, _, hr.1⟩ hrefused

end Products

/-- Products of arbitrary values, the numbers among which are integers that can be written, are
computed exactly for conformable integer operands: the product of two matrices, that of a matrix and
a vector, and the dot product, which looks at the positions that both vectors have only. All other
operands are refused. -/
theorem products_guarded {left right vector : List Value} (hleft : ∀ v ∈ left, v.IsExact)
    (hright : ∀ v ∈ right, v.IsExact) (hvector : ∀ v ∈ vector, v.IsExact) :
    Guarded (rowEntries left ++ rowEntries right) (mul · left right)
      (IsIntegerMatrix right.length left ∧ ∃ n, IsIntegerMatrix n right)
      (fun v => ∃ rows, v = .list rows ∧ rows.length = left.length ∧
        ∀ n, IsIntegerMatrix n right → IsIntegerMatrix n rows) ∧
    Guarded (rowEntries left ++ vector) (mulVector · left vector)
      (IsIntegerMatrix vector.length left ∧ AreIntegers vector)
      (fun v => ∃ entries, v = .list entries ∧ entries.length = left.length ∧
        AreIntegers entries) ∧
    Guarded (left.take (min left.length right.length) ++ right.take (min left.length right.length))
      (dot · left right)
      (AreIntegers (left.take (min left.length right.length)) ∧
        AreIntegers (right.take (min left.length right.length)))
      (fun v => ∃ n : Int, v = .ofInt n) :=
  ⟨mul_guarded hleft hright, mulVector_guarded hleft hvector, dot_guarded hleft hright⟩

/-- A row without entries conforms to a vector without entries, but to no matrix, since that has a
row. -/
theorem products_guarded_empty :
    (∃ v, (∃ entries, v = .list entries ∧ entries.length = 1 ∧ AreIntegers entries) ∧
      ∀ depth, mulVector depth [.list []] [] = .ok v) ∧
    (∀ depth, ∃ fault, mul depth [.list []] [.bool true, .null] = .error fault ∧
      (fault.category = .shape ∨ fault.category = .operandType)) := by
  have hleft : ∀ v ∈ [Value.list []], v.IsExact :=
    List.forall_mem_singleton.mpr (.list (List.forall_mem_nil _))
  have hright : ∀ v ∈ [.bool true, Value.null], v.IsExact :=
    List.forall_mem_cons.mpr ⟨.bool true, List.forall_mem_singleton.mpr .null⟩
  obtain ⟨hmul, hvector, -⟩ := products_guarded hleft hright (List.forall_mem_nil Value.IsExact)
  have hrow : AreIntegers [] := List.forall_mem_nil _
  have hmatrix : IsIntegerMatrix 0 [.list []] :=
    ⟨nofun, List.forall_mem_singleton.mpr ⟨[], rfl, rfl, hrow⟩⟩
  refine ⟨hvector.accepts ⟨hmatrix, hrow⟩, fun depth => ?_⟩
  obtain ⟨fault, hfault, hcategory⟩ := hmul.refuses
    (fun h => absurd (hmatrix.width_unique h.1) (by decide)) depth
  refine ⟨fault, hfault, hcategory.imp_right fun h => h.resolve_right ?_⟩
  -- neither operand has an entry in a row
  rintro ⟨-, v, ⟨⟩, -⟩

/-- A first entry that is refused ends the dot product with whatever keeps it from being shown. -/
theorem dot_of_inspect_eq_error {v w : Value} {depth : Nat} {fault : Fault}
    (hrefused : ∀ n, v ≠ .number n) (hshown : v.inspect depth = .error fault) :
    dot depth (v :: left) (w :: right) = .error fault := by
  have hterms : min (v :: left).length (w :: right).length = min left.length right.length + 1 :=
    Nat.succ_min_succ left.length right.length
  rw [dot, hterms, List.take_succ_cons, entries, numbersFrom, hshown]
  · rfl
  · exact hrefused

/-- With all calls left that there are by default, a vector with a list of 1200 levels in it is
refused neither for its shape nor for its type. -/
theorem dot_deep :
    (Value.nest 1200 .null).IsExact ∧
      dot defaultLimit [.nest 1200 .null] [.ofInt 1] = .error .tooDeep ∧
      Fault.tooDeep.category ≠ .shape ∧ Fault.tooDeep.category ≠ .operandType := by
  have hexact : (Value.nest 1200 .null).IsExact := .nest 1200 .null
  have hshown : (Value.nest 1200 .null).inspect defaultLimit = .error .tooDeep := by
    rw [hexact.inspect_eq_error_iff, Value.levels_nest]
    decide +kernel
  exact ⟨hexact, dot_of_inspect_eq_error nofun hshown, nofun, nofun⟩

end Matrix

end StackScript
