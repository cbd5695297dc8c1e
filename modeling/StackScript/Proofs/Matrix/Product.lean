import Mathlib.LinearAlgebra.CrossProduct
import StackScript.Proofs.Matrix.Precision

/-! # Products of integer matrices

On integers of any size the products of vectors and matrices are those of linear algebra. The
precision that is chosen for them never shows.
-/

section LinearAlgebra

open scoped Matrix

namespace StackScript

theorem mapM_ofFn {ε α β : Type} {n : Nat} {f : α → Except ε β} {u : Fin n → α} {v : Fin n → β}
    (huv : ∀ i, f (u i) = .ok (v i)) : (List.ofFn u).mapM f = .ok (List.ofFn v) := by
  induction n with
  | zero => rfl
  | succ n ih =>
      rw [List.ofFn_succ, List.ofFn_succ, List.mapM_cons, huv 0, ok_bind, ih fun i => huv i.succ,
        ok_bind]
      rfl

theorem mapM_map_ofFn {ε α β γ δ : Type} {n : Nat} {f : β → Except ε δ} {g : α → β} {h : γ → δ}
    {u : Fin n → α} {v : Fin n → γ} (huv : ∀ i, f (g (u i)) = .ok (h (v i))) :
    ((List.ofFn u).map g).mapM f = .ok ((List.ofFn v).map h) := by
  rw [List.map_ofFn, List.map_ofFn]
  exact mapM_ofFn huv

namespace Matrix

variable {m k n : Nat}

/-! ## Operands -/

/-- The rows of a matrix. -/
def tableOf (A : Matrix (Fin m) (Fin n) Int) : List (List Int) :=
  List.ofFn fun i => List.ofFn (A i)

/-- A vector of integers as the elements of a list. -/
def vectorOf (v : Fin n → Int) : List Value := (List.ofFn v).map Value.ofInt

/-- Rows of integers as the elements of a list. -/
def gridOf (table : List (List Int)) : List Value :=
  table.map fun row => .list (row.map Value.ofInt)

theorem numbersFrom_number (depth : Nat) (place : Place) (index : Nat) (xs : List Number) :
    numbersFrom depth place index (xs.map .number) = .ok xs := by
  induction xs generalizing index with
  | nil => rfl
  | cons x rest ih =>
      rw [List.map_cons, numbersFrom, ih, ok_bind]
      rfl

theorem numbersFrom_ofInt (depth : Nat) (place : Place) (index : Nat) (xs : List Int) :
    numbersFrom depth place index (xs.map Value.ofInt) = .ok (xs.map .int) := by
  rw [← numbersFrom_number depth place index, List.map_map]
  rfl

theorem rowsFrom_number (depth : Nat) (role : Role) (width index : Nat)
    {rows : List (List Number)} (hwidth : ∀ row ∈ rows, row.length = width) :
    rowsFrom depth role width index (rows.map (·.map .number)) = .ok rows := by
  induction rows generalizing index with
  | nil => rfl
  | cons row rest ih =>
      obtain ⟨hrow, hrest⟩ := List.forall_mem_cons.mp hwidth
      have hlength : ¬ (row.map Value.number).length ≠ width := by simp [hrow]
      rw [List.map_cons, rowsFrom, if_neg hlength, numbersFrom_number, ok_bind, ih _ hrest, ok_bind]
      rfl

/-- A table of numbers is read back from its value. -/
theorem rows_vectorValue (depth : Nat) (role : Role) {first : List Number}
    {rest : List (List Number)} (hwidth : ∀ row ∈ rest, row.length = first.length) :
    rows depth role ((first :: rest).map vectorValue) = .ok (first :: rest) := by
  have hitems : ((first :: rest).map vectorValue).mapM items? =
      some ((first :: rest).map (·.map .number)) := by
    rw [List.mapM_map]
    exact List.mapM_pure
  rw [rows, hitems]
  simp only [List.map_cons, List.length_map]
  exact rowsFrom_number depth role _ 0 (List.forall_mem_cons.mpr ⟨rfl, hwidth⟩)

theorem length_of_mem_tableOf {A : Matrix (Fin m) (Fin n) Int} {row : List Int}
    (hrow : row ∈ tableOf A) : row.length = n := by
  obtain ⟨i, rfl⟩ := List.mem_ofFn.mp hrow
  exact List.length_ofFn

theorem mapM_items?_gridOf (table : List (List Int)) :
    (gridOf table).mapM items? = some (table.map (·.map Value.ofInt)) := by
  rw [gridOf, List.mapM_map]
  exact List.mapM_pure

theorem rows_gridOf (depth : Nat) (role : Role) (A : Matrix (Fin (m + 1)) (Fin n) Int) :
    rows depth role (gridOf (tableOf A)) = .ok ((tableOf A).map (·.map .int)) := by
  have hvalue : gridOf (tableOf A) = ((tableOf A).map (·.map Number.int)).map vectorValue := by
    simp [gridOf, vectorValue, Value.ofInt]
  rw [hvalue, tableOf, List.ofFn_succ]
  refine rows_vectorValue depth role fun row hrow => ?_
  obtain ⟨entries, hentries, rfl⟩ := List.mem_map.mp hrow
  obtain ⟨i, rfl⟩ := List.mem_ofFn.mp hentries
  simp

theorem width_tableOf (A : Matrix (Fin (m + 1)) (Fin n) Int) :
    width ((tableOf A).map (·.map .int)) = n := by
  simp [width, tableOf, List.ofFn_succ]

theorem vectorValue_ofInt (xs : List Int) :
    vectorValue (xs.map .int) = .list (xs.map Value.ofInt) := by
  simp [vectorValue, Value.ofInt]

theorem matrixValue_tableOf (A : Matrix (Fin m) (Fin n) Int) :
    matrixValue ((tableOf A).map (·.map .int)) = .list (gridOf (tableOf A)) := by
  simp only [matrixValue, gridOf, List.map_map, Function.comp_def, vectorValue_ofInt]

theorem flatten_tableOf (A : Matrix (Fin m) (Fin n) Int) :
    ((tableOf A).map (·.map Number.int)).flatten = (tableOf A).flatten.map .int := by
  rw [List.map_flatten]

theorem mem_flatten_tableOf (A : Matrix (Fin m) (Fin n) Int) (i : Fin m) (j : Fin n) :
    A i j ∈ (tableOf A).flatten :=
  List.mem_flatten.mpr ⟨List.ofFn (A i), List.mem_ofFn.mpr ⟨i, rfl⟩, List.mem_ofFn.mpr ⟨j, rfl⟩⟩

theorem map_tableOf (A : Matrix (Fin m) (Fin n) Int) :
    (tableOf A).map (·.map Number.int) = List.ofFn fun i => (List.ofFn (A i)).map .int := by
  rw [tableOf, List.map_ofFn]
  rfl

/-! ## Shapes -/

theorem exists_ofFn {α : Type} {xs : List α} (hlength : xs.length = n) :
    ∃ v : Fin n → α, xs = List.ofFn v := by
  subst hlength
  exact ⟨xs.get, (List.ofFn_get xs).symm⟩

theorem exists_tableOf {table : List (List Int)} (hrows : table.length = m)
    (hwidth : ∀ row ∈ table, row.length = n) :
    ∃ A : Matrix (Fin m) (Fin n) Int, table = tableOf A := by
  obtain ⟨row, rfl⟩ := exists_ofFn hrows
  have hentries (i : Fin m) := exists_ofFn (hwidth (row i) (List.mem_ofFn.mpr ⟨i, rfl⟩))
  choose A hA using hentries
  exact ⟨A, congrArg List.ofFn (funext hA)⟩

theorem length_of_rowsFrom {depth : Nat} {role : Role} {width index : Nat}
    {table : List (List Int)} {numbers : List (List Number)}
    (hok : rowsFrom depth role width index (table.map (·.map Value.ofInt)) = .ok numbers) :
    ∀ row ∈ table, row.length = width := by
  induction table generalizing index numbers with
  | nil => simp
  | cons row rest ih =>
      rw [List.map_cons, rowsFrom] at hok
      split at hok
      next => cases hok
      next hrow =>
        rw [List.length_map, ne_eq, not_not] at hrow
        rw [numbersFrom_ofInt, ok_bind] at hok
        cases hrest : rowsFrom depth role width (index + 1) (rest.map (·.map Value.ofInt)) with
        | error fault =>
            rw [hrest] at hok
            cases hok
        | ok others => exact List.forall_mem_cons.mpr ⟨hrow, ih hrest⟩

/-- Only matrices with at least one row are accepted. -/
theorem exists_tableOf_of_rows {depth : Nat} {role : Role} {table : List (List Int)}
    {numbers : List (List Number)} (hok : rows depth role (gridOf table) = .ok numbers) :
    ∃ (m n : Nat) (A : Matrix (Fin (m + 1)) (Fin n) Int), table = tableOf A := by
  rw [rows, mapM_items?_gridOf] at hok
  cases table with
  | nil => cases hok
  | cons first rest =>
      exact ⟨rest.length, _, exists_tableOf rfl (length_of_rowsFrom hok)⟩

/-! ## Rows and columns -/

theorem zipWith_ofFn {α β γ : Type} (f : α → β → γ) (u : Fin n → α) (v : Fin n → β) :
    List.zipWith f (List.ofFn u) (List.ofFn v) = List.ofFn fun i => f (u i) (v i) :=
  List.ext_getElem (by simp) (by simp)

theorem sum_zipWith_ofFn (u v : Fin n → Int) :
    (List.zipWith (· * ·) (List.ofFn u) (List.ofFn v)).sum = u ⬝ᵥ v := by
  rw [zipWith_ofFn, List.sum_ofFn]
  rfl

theorem columns_ofFn (f : Fin (m + 1) → Fin n → Number) :
    columns (List.ofFn fun i => List.ofFn (f i)) =
      List.ofFn fun j => List.ofFn fun i => f i j := by
  induction m with
  | zero => simp [columns, List.map_ofFn, Function.comp_def]
  | succ m ih =>
      -- the first row is put in front of the columns of the others
      have hrest := ih fun i => f i.succ
      rw [List.ofFn_succ] at hrest
      rw [List.ofFn_succ, List.ofFn_succ, columns, hrest, zipWith_ofFn]
      · simp only [List.ofFn_succ (n := m + 1)]
      · exact List.cons_ne_nil _ _

theorem columns_tableOf (A : Matrix (Fin (m + 1)) (Fin n) Int) :
    columns ((tableOf A).map (·.map .int)) = (tableOf Aᵀ).map (·.map .int) := by
  simp only [map_tableOf, List.map_ofFn, columns_ofFn]
  rfl

end Matrix

/-! ## Products -/

theorem Precision.Keeps.dot_ofFn {left right : List Int} {precision : Precision} {n : Nat}
    (hkeeps : precision.Keeps left right n) (u v : Fin n → Int) (hu : ∀ i, u i ∈ left)
    (hv : ∀ i, v i ∈ right) :
    precision.dot ((List.ofFn u).map .int) ((List.ofFn v).map .int) = .ok (.int (u ⬝ᵥ v)) := by
  rw [← Matrix.sum_zipWith_ofFn]
  exact hkeeps.dot_eq (List.forall_mem_ofFn_iff.mpr hu) (List.forall_mem_ofFn_iff.mpr hv) (by simp)

namespace Matrix

variable {m k n : Nat}

theorem dot_ofInt (depth : Nat) (xs ys : List Int) :
    dot depth (xs.map Value.ofInt) (ys.map Value.ofInt) =
      .ok (.ofInt (List.zipWith (· * ·) xs ys).sum) := by
  set terms := min xs.length ys.length
  obtain ⟨precision, hprecision, hkeeps⟩ :=
    Precision.ofProduct_int (xs.take terms) (ys.take terms) terms
  have hsum := hkeeps.dot_eq (List.Subset.refl _) (List.Subset.refl _) (by simp [terms])
  rw [← List.zipWith_eq_zipWith_take_min] at hsum
  rw [dot, List.length_map, List.length_map, ← List.map_take, ← List.map_take]
  simp only [entries]
  rw [numbersFrom_ofInt, numbersFrom_ofInt, ok_bind, ok_bind, hprecision, ok_bind, hsum]
  rfl

theorem mulVector_gridOf (depth : Nat) (A : Matrix (Fin (m + 1)) (Fin n) Int) (v : Fin n → Int) :
    mulVector depth (gridOf (tableOf A)) (vectorOf v) = .ok (.list (vectorOf (A *ᵥ v))) := by
  obtain ⟨precision, hprecision, hkeeps⟩ :=
    Precision.ofProduct_int (tableOf A).flatten (List.ofFn v) n
  have hdots : ((tableOf A).map (·.map Number.int)).mapM
      (fun row => precision.dot row ((List.ofFn v).map .int)) =
        .ok ((List.ofFn (A *ᵥ v)).map .int) := by
    apply mapM_map_ofFn
    intro i
    have hvector (j : Fin n) : v j ∈ List.ofFn v := List.mem_ofFn.mpr ⟨j, rfl⟩
    exact hkeeps.dot_ofFn (A i) v (mem_flatten_tableOf A i) hvector
  rw [mulVector, rows_gridOf, ok_bind]
  simp only [entries, vectorOf]
  rw [numbersFrom_ofInt, ok_bind, width_tableOf, if_neg (by simp), flatten_tableOf, hprecision,
    ok_bind, hdots, ok_bind, ← vectorValue_ofInt]
  rfl

theorem mul_gridOf (depth : Nat) (A : Matrix (Fin (m + 1)) (Fin (k + 1)) Int)
    (B : Matrix (Fin (k + 1)) (Fin n) Int) :
    mul depth (gridOf (tableOf A)) (gridOf (tableOf B)) =
      .ok (.list (gridOf (tableOf (A * B)))) := by
  obtain ⟨precision, hprecision, hkeeps⟩ :=
    Precision.ofProduct_int (tableOf A).flatten (tableOf B).flatten (k + 1)
  have hconforms : ¬ k + 1 ≠ ((tableOf B).map (·.map Number.int)).length := by simp [tableOf]
  have hdots : ((tableOf A).map (·.map Number.int)).mapM (fun row =>
      (columns ((tableOf B).map (·.map .int))).mapM fun column => precision.dot row column) =
        .ok ((tableOf (A * B)).map (·.map .int)) := by
    rw [columns_tableOf]
    apply mapM_map_ofFn
    intro i
    apply mapM_map_ofFn
    intro j
    have hcolumn (l : Fin (k + 1)) := mem_flatten_tableOf B l j
    exact hkeeps.dot_ofFn (A i) (Bᵀ j) (mem_flatten_tableOf A i) hcolumn
  rw [mul, rows_gridOf, ok_bind, rows_gridOf, ok_bind, width_tableOf, if_neg hconforms,
    flatten_tableOf, flatten_tableOf, hprecision, ok_bind, hdots, ok_bind, ← matrixValue_tableOf]
  rfl

theorem cross_vectorOf (depth : Nat) (u v : Fin 3 → Int) :
    cross depth (vectorOf u) (vectorOf v) = .ok (.list (vectorOf (u ⨯₃ v))) := by
  obtain ⟨precision, hprecision, hkeeps⟩ := Precision.ofProduct_int (List.ofFn u) (List.ofFn v) 2
  have hu (i : Fin 3) : u i ∈ List.ofFn u := List.mem_ofFn.mpr ⟨i, rfl⟩
  have hv (i : Fin 3) : v i ∈ List.ofFn v := List.mem_ofFn.mpr ⟨i, rfl⟩
  have hlengths : ¬ ((vectorOf u).length ≠ 3 || (vectorOf v).length ≠ 3) = true := by
    simp [vectorOf]
  rw [cross, if_neg hlengths]
  simp only [entries, vectorOf]
  rw [numbersFrom_ofInt, numbersFrom_ofInt, ok_bind, ok_bind, hprecision, ok_bind]
  have hthree (w : Fin 3 → Int) : List.ofFn w = [w 0, w 1, w 2] := by simp [List.ofFn_succ]
  rw [hthree, hthree]
  simp only [List.map_cons, List.map_nil]
  rw [hkeeps.crossEntry_eq (hu 1) (hv 2) (hu 2) (hv 1), ok_bind,
    hkeeps.crossEntry_eq (hu 2) (hv 0) (hu 0) (hv 2), ok_bind,
    hkeeps.crossEntry_eq (hu 0) (hv 1) (hu 1) (hv 0), ok_bind, hthree, cross_apply]
  rfl

theorem carry_moved {xs : List Int} {x : Int} (hx : x ∈ xs) :
    Precision.carry (.int x) (.ofMoved (xs.map .int)) = .ok (.int x) := by
  rw [Precision.ofMoved]
  split
  next => rfl
  next hsmall =>
    rw [Precision.ofEntries_int]
    exact Precision.carry_words (Precision.natAbs_lt_of_magnitude (Bool.eq_false_iff.mpr hsmall) hx)

theorem transpose_of_rows {depth : Nat} {items : List Value} {table carried : List (List Number)}
    (hrows : rows depth .matrix items = .ok table)
    (hcarried : table.mapM (fun row => row.mapM fun entry =>
      Precision.carry entry (.ofMoved table.flatten)) = .ok carried) :
    transpose depth items = .ok (matrixValue (columns carried)) := by
  rw [transpose, hrows, ok_bind]
  simp only [Precision.ofMoved] at hcarried
  simp only [hcarried, ok_bind]
  rfl

theorem transpose_gridOf (depth : Nat) (A : Matrix (Fin (m + 1)) (Fin n) Int) :
    transpose depth (gridOf (tableOf A)) = .ok (.list (gridOf (tableOf Aᵀ))) := by
  rw [← matrixValue_tableOf, ← columns_tableOf]
  refine transpose_of_rows (rows_gridOf depth .matrix A) ?_
  rw [flatten_tableOf]
  apply mapM_map_ofFn
  intro i
  apply mapM_map_ofFn
  intro j
  exact carry_moved (mem_flatten_tableOf A i j)

/-! ## What is accepted -/

theorem mulVector_eq_ok_iff {depth : Nat} {table : List (List Int)} {xs : List Int}
    {value : Value} :
    mulVector depth (gridOf table) (xs.map Value.ofInt) = .ok value ↔
      ∃ (m n : Nat) (A : Matrix (Fin (m + 1)) (Fin n) Int) (v : Fin n → Int),
        table = tableOf A ∧ xs = List.ofFn v ∧ value = .list (vectorOf (A *ᵥ v)) := by
  constructor
  · intro hok
    have hfull := hok
    rw [mulVector] at hok
    cases hrows : rows depth .matrix (gridOf table) with
    | error fault =>
        rw [hrows] at hok
        cases hok
    | ok numbers =>
        obtain ⟨m, n, A, rfl⟩ := exists_tableOf_of_rows hrows
        rw [rows_gridOf, ok_bind] at hok
        simp only [entries] at hok
        rw [numbersFrom_ofInt, ok_bind, width_tableOf] at hok
        split at hok
        next => cases hok
        next hlength =>
          rw [List.length_map, ne_eq, not_not] at hlength
          obtain ⟨v, rfl⟩ := exists_ofFn hlength.symm
          refine ⟨m, n, A, v, rfl, rfl, ?_⟩
          rw [← vectorOf, mulVector_gridOf] at hfull
          exact (Except.ok.inj hfull).symm
  · rintro ⟨m, n, A, v, rfl, rfl, rfl⟩
    exact mulVector_gridOf depth A v

theorem mul_eq_ok_iff {depth : Nat} {left right : List (List Int)} {value : Value} :
    mul depth (gridOf left) (gridOf right) = .ok value ↔
      ∃ (m k n : Nat) (A : Matrix (Fin (m + 1)) (Fin (k + 1)) Int)
        (B : Matrix (Fin (k + 1)) (Fin n) Int),
        left = tableOf A ∧ right = tableOf B ∧ value = .list (gridOf (tableOf (A * B))) := by
  constructor
  · intro hok
    have hfull := hok
    rw [mul] at hok
    cases hleft : rows depth .left (gridOf left) with
    | error fault =>
        rw [hleft] at hok
        cases hok
    | ok numbers =>
        rw [hleft, ok_bind] at hok
        cases hright : rows depth .right (gridOf right) with
        | error fault =>
            rw [hright] at hok
            cases hok
        | ok others =>
            obtain ⟨m, l, A, rfl⟩ := exists_tableOf_of_rows hleft
            obtain ⟨k, n, B, rfl⟩ := exists_tableOf_of_rows hright
            rw [hright, ok_bind] at hok
            rw [rows_gridOf] at hleft hright
            cases hleft
            cases hright
            rw [width_tableOf] at hok
            split at hok
            next => cases hok
            next hconforms =>
              have hinner : l = k + 1 := by simpa [tableOf] using hconforms
              subst hinner
              refine ⟨m, k, n, A, B, rfl, rfl, ?_⟩
              rw [mul_gridOf] at hfull
              exact (Except.ok.inj hfull).symm
  · rintro ⟨m, k, n, A, B, rfl, rfl, rfl⟩
    exact mul_gridOf depth A B

theorem cross_eq_ok_iff {depth : Nat} {xs ys : List Int} {value : Value} :
    cross depth (xs.map Value.ofInt) (ys.map Value.ofInt) = .ok value ↔
      ∃ u v : Fin 3 → Int,
        xs = List.ofFn u ∧ ys = List.ofFn v ∧ value = .list (vectorOf (u ⨯₃ v)) := by
  constructor
  · intro hok
    have hfull := hok
    rw [cross] at hok
    split at hok
    next => cases hok
    next hlengths =>
      simp only [List.length_map, ne_eq, decide_not, Bool.or_eq_true, Bool.not_eq_true',
        decide_eq_false_iff_not, not_or, not_not] at hlengths
      obtain ⟨u, rfl⟩ := exists_ofFn hlengths.1
      obtain ⟨v, rfl⟩ := exists_ofFn hlengths.2
      refine ⟨u, v, rfl, rfl, ?_⟩
      rw [← vectorOf, ← vectorOf, cross_vectorOf] at hfull
      exact (Except.ok.inj hfull).symm
  · rintro ⟨u, v, rfl, rfl, rfl⟩
    exact cross_vectorOf depth u v

theorem transpose_eq_ok_iff {depth : Nat} {table : List (List Int)} {value : Value} :
    transpose depth (gridOf table) = .ok value ↔
      ∃ (m n : Nat) (A : Matrix (Fin (m + 1)) (Fin n) Int),
        table = tableOf A ∧ value = .list (gridOf (tableOf Aᵀ)) := by
  constructor
  · intro hok
    have hfull := hok
    rw [transpose] at hok
    cases hrows : rows depth .matrix (gridOf table) with
    | error fault =>
        rw [hrows] at hok
        cases hok
    | ok numbers =>
        obtain ⟨m, n, A, rfl⟩ := exists_tableOf_of_rows hrows
        refine ⟨m, n, A, rfl, ?_⟩
        rw [transpose_gridOf] at hfull
        exact (Except.ok.inj hfull).symm
  · rintro ⟨m, n, A, rfl, rfl⟩
    exact transpose_gridOf depth A

/-! ## No product wraps -/

/-- Products of integers, which words of 64 bits may have computed, are exact. What the
operations accept are the shapes for which linear algebra defines them, with at least one row
in a matrix; and what is held as words lies within their range. -/
theorem products_exact (depth : Nat) :
    (∀ xs ys : List Int, dot depth (xs.map Value.ofInt) (ys.map Value.ofInt) =
      .ok (.ofInt (List.zipWith (· * ·) xs ys).sum)) ∧
    (∀ (table : List (List Int)) (xs : List Int) (value : Value),
      mulVector depth (gridOf table) (xs.map Value.ofInt) = .ok value ↔
        ∃ (m n : Nat) (A : Matrix (Fin (m + 1)) (Fin n) Int) (v : Fin n → Int),
          table = tableOf A ∧ xs = List.ofFn v ∧ value = .list (vectorOf (A *ᵥ v))) ∧
    (∀ (left right : List (List Int)) (value : Value),
      mul depth (gridOf left) (gridOf right) = .ok value ↔
        ∃ (m k n : Nat) (A : Matrix (Fin (m + 1)) (Fin (k + 1)) Int)
          (B : Matrix (Fin (k + 1)) (Fin n) Int),
          left = tableOf A ∧ right = tableOf B ∧ value = .list (gridOf (tableOf (A * B)))) ∧
    (∀ (xs ys : List Int) (value : Value),
      cross depth (xs.map Value.ofInt) (ys.map Value.ofInt) = .ok value ↔
        ∃ u v : Fin 3 → Int,
          xs = List.ofFn u ∧ ys = List.ofFn v ∧ value = .list (vectorOf (u ⨯₃ v))) ∧
    (∀ (table : List (List Int)) (value : Value),
      transpose depth (gridOf table) = .ok value ↔
        ∃ (m n : Nat) (A : Matrix (Fin (m + 1)) (Fin n) Int),
          table = tableOf A ∧ value = .list (gridOf (tableOf Aᵀ))) ∧
    (∀ (left right : List Int) (terms : Nat),
      Precision.ofProduct (left.map .int) (right.map .int) terms = .ok .words →
        ∀ x ∈ left ++ right, -2 ^ 63 ≤ x ∧ x < 2 ^ 63) ∧
    (∀ xs : List Int, Number.gt (Precision.magnitude (xs.map .int)) Precision.wordLimit = false →
      ∀ x ∈ xs, -2 ^ 63 ≤ x ∧ x < 2 ^ 63) := by
  refine ⟨dot_ofInt depth, fun _ _ _ => mulVector_eq_ok_iff, fun _ _ _ => mul_eq_ok_iff,
    fun _ _ _ => cross_eq_ok_iff, fun _ _ => transpose_eq_ok_iff, ?_, ?_⟩
  · intro left right terms hwords x hx
    obtain ⟨precision, hprecision, hkeeps⟩ := Precision.ofProduct_int left right terms
    rw [hwords] at hprecision
    cases hprecision
    have hrange := Precision.natAbs_lt_of_keeps_words hkeeps hx
    omega
  · intro xs hsmall x hx
    have hrange := Precision.natAbs_lt_of_magnitude hsmall hx
    omega

/-- Zeros stand against entries that no word holds, and the lowest word is an entry. -/
theorem products_exact_at_limits :
    dot 0 ([2 ^ 70, -2 ^ 63, 0].map Value.ofInt) ([0, -1, 2 ^ 90].map Value.ofInt) =
      .ok (.ofInt (2 ^ 63)) ∧
    (Precision.ofProduct ([2 ^ 63 - 1].map .int) ([0].map .int) 1 = .ok .words ∧
      ∀ x ∈ [(2 : Int) ^ 63 - 1] ++ [0], -2 ^ 63 ≤ x ∧ x < 2 ^ 63) ∧
    (Number.gt (Precision.magnitude ([1 - 2 ^ 63].map .int)) Precision.wordLimit = false ∧
      ∀ x ∈ [(1 : Int) - 2 ^ 63], -2 ^ 63 ≤ x ∧ x < 2 ^ 63) := by
  obtain ⟨hdot, -, -, -, -, hproduct, htranspose⟩ := products_exact 0
  exact ⟨hdot _ _, ⟨rfl, hproduct _ _ 1 rfl⟩, ⟨rfl, htranspose _ rfl⟩⟩

end Matrix

end StackScript

end LinearAlgebra
