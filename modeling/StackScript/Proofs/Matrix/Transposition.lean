import StackScript.Proofs.Matrix.Product
import StackScript.Proofs.Numeral.Nearest
import StackScript.Proofs.Numeral.Order

/-! # Transposition of matrices of numbers

A transposition moves every entry, but how the entries are held meanwhile depends on all of them.
With a double among them integers are rounded to doubles, unless an entry lies beyond the range of
words, in which case no entry is touched.
-/

namespace StackScript

namespace Precision

open Binary64 Number

/-- Some entry lies beyond the range of words. -/
def HasBeyond (entries : List Number) : Prop :=
  ∃ entry ∈ entries, entry.abs.Exceeds (2 ^ 63 - 1)

/-- The entries are held as doubles: one of them is a double, and none lies beyond the words. -/
def HeldAsDoubles (entries : List Number) : Prop :=
  (∃ x, .float x ∈ entries) ∧ ¬ HasBeyond entries

/-- What becomes of an entry that is moved among others. An integer is rounded where the entries are
held as doubles, which changes none up to `2 ^ 53`. Nothing is said of an integral double among
entries of which one lies beyond the words. -/
structure Moved (entries : List Number) (entry result : Number) : Prop where
  int : ∀ n, entry = .int n → ¬ HeldAsDoubles entries ∨ n.natAbs ≤ 2 ^ 53 → result = .int n
  rounded : ∀ n, entry = .int n → HeldAsDoubles entries → result = .int (roundedInt n)
  float : ∀ x, entry = .float x → (HasBeyond entries → isIntegral x = false) →
    result = entry.normalize

variable {entries : List Number} {entry : Number}

/-! ## The choice of a precision -/

theorem gt_magnitude_iff (hfinite : ∀ entry ∈ entries, ∃ q, entry.value? = some q) :
    Number.gt (magnitude entries) wordLimit = true ↔ HasBeyond entries := by
  cases entries with
  | nil => simp [HasBeyond, magnitude, maximum, wordLimit_eq, gt_int_iff]
  | cons first rest =>
      obtain ⟨⟨q, hq⟩, hrest⟩ := List.forall_mem_cons.mp hfinite
      have hmagnitudes : ∀ n ∈ rest.map Number.abs, ∃ q, n.value? = some q := by
        intro n hn
        obtain ⟨entry, hentry, rfl⟩ := List.mem_map.mp hn
        obtain ⟨r, hr⟩ := hrest entry hentry
        exact ⟨|r|, value?_abs hr⟩
      obtain ⟨greatest, hgreatest, hexceeds⟩ := exists_maximum (value?_abs hq) hmagnitudes
      have hlimit : wordLimit.value? = some (2 ^ 63 - 1 : ℚ) := by
        rw [wordLimit_eq, Number.value?]
        norm_num
      rw [magnitude, List.map_cons, gt_iff hgreatest hlimit, hexceeds, ← List.map_cons]
      simp [HasBeyond]

theorem any_isFloat_iff : entries.any isFloat = true ↔ ∃ x, .float x ∈ entries := by
  rw [List.any_eq_true]
  constructor
  · rintro ⟨entry, hentry, hfloat⟩
    cases entry with
    | int n => cases hfloat
    | float x => exact ⟨x, hentry⟩
  · rintro ⟨x, hx⟩
    exact ⟨_, hx, rfl⟩

theorem natAbs_lt_of_not_hasBeyond (hnone : ¬ HasBeyond entries) {n : Int} (hn : .int n ∈ entries) :
    n.natAbs < 2 ^ 63 := by
  by_contra hlarge
  refine hnone ⟨_, hn, |(n : ℚ)|, value?_abs rfl, ?_⟩
  have hge : (2 ^ 63 : ℤ) ≤ |n| := by
    rw [Int.abs_eq_natAbs]
    exact_mod_cast Nat.le_of_not_lt hlarge
  have hcast : (2 ^ 63 : ℚ) ≤ |(n : ℚ)| := by exact_mod_cast hge
  linarith

theorem carry_doubles_int {n : Int} (hn : n.natAbs < 2 ^ 63) :
    carry (.int n) .doubles = .ok (.int (roundedInt n)) := by
  obtain ⟨x, hx⟩ := exists_ofInt? hn
  have hnormalize := normalize_of_value?_intCast (value?_of_ofInt? hx)
  simp only [carry, Number.toFloat, hx, ok_bind, hnormalize]
  rfl

theorem exists_carry (hfinite : ∀ entry ∈ entries, ∃ q, entry.value? = some q)
    (hentry : entry ∈ entries) :
    ∃ result, carry entry (ofMoved entries) = .ok result ∧ Moved entries entry result := by
  by_cases hbeyond : HasBeyond entries
  · have hheld : ¬ HeldAsDoubles entries := fun h => h.2 hbeyond
    rw [ofMoved, if_pos ((gt_magnitude_iff hfinite).mpr hbeyond)]
    refine ⟨entry, rfl, fun n hn _ => hn, fun n _ h => absurd h hheld, fun x hx hintegral => ?_⟩
    rw [hx, normalize_of_not_integral (hintegral hbeyond)]
  · rw [ofMoved, if_neg (mt (gt_magnitude_iff hfinite).mp hbeyond), ofEntries]
    split
    next hany =>
      have hheld : HeldAsDoubles entries := ⟨any_isFloat_iff.mp hany, hbeyond⟩
      cases entry with
      | int n =>
          refine ⟨_, carry_doubles_int (natAbs_lt_of_not_hasBeyond hbeyond hentry), ?_, ?_, ?_⟩
          · rintro _ ⟨⟩ hsmall
            rw [roundedInt_of_le (hsmall.resolve_left (not_not_intro hheld))]
          · rintro _ ⟨⟩ -
            rfl
          · rintro x ⟨⟩
      | float x =>
          refine ⟨Number.normalize (.float x), rfl, ?_, ?_, ?_⟩
          · rintro n ⟨⟩
          · rintro n ⟨⟩
          · intros
            rfl
    next hnone =>
      have hheld : ¬ HeldAsDoubles entries := fun h => hnone (any_isFloat_iff.mpr h.1)
      cases entry with
      | int n =>
          refine ⟨_, carry_words (natAbs_lt_of_not_hasBeyond hbeyond hentry), ?_, ?_, ?_⟩
          · intro _ hn _
            exact hn
          · exact fun _ _ h => absurd h hheld
          · rintro x ⟨⟩
      | float x => exact absurd (any_isFloat_iff.mpr ⟨x, hentry⟩) hnone

end Precision

namespace Matrix

variable {m n : Nat}

/-- The rows of a matrix of numbers. -/
def numbersOf (M : Matrix (Fin m) (Fin n) Number) : List (List Number) :=
  List.ofFn fun i => List.ofFn (M i)

theorem mem_flatten_numbersOf (M : Matrix (Fin m) (Fin n) Number) {entry : Number} :
    entry ∈ (numbersOf M).flatten ↔ ∃ i j, M i j = entry := by
  simp [numbersOf, List.mem_flatten, List.mem_ofFn]

theorem rows_numbersOf (depth : Nat) (role : Role) (M : Matrix (Fin (m + 1)) (Fin n) Number) :
    rows depth role ((numbersOf M).map vectorValue) = .ok (numbersOf M) := by
  rw [numbersOf, List.ofFn_succ]
  refine rows_vectorValue depth role fun row hrow => ?_
  obtain ⟨i, rfl⟩ := List.mem_ofFn.mp hrow
  simp

/-- A matrix of finite numbers is transposed entry by entry. -/
theorem transpose_entries (depth : Nat) (M : Matrix (Fin (m + 1)) (Fin n) Number)
    (hfinite : ∀ i j, ∃ q, (M i j).value? = some q) :
    ∃ T : Matrix (Fin n) (Fin (m + 1)) Number,
      transpose depth ((numbersOf M).map vectorValue) = .ok (matrixValue (numbersOf T)) ∧
        ∀ i j, Precision.Moved (numbersOf M).flatten (M i j) (T j i) := by
  have hentries : ∀ entry ∈ (numbersOf M).flatten, ∃ q, entry.value? = some q := by
    intro entry hentry
    obtain ⟨i, j, rfl⟩ := (mem_flatten_numbersOf M).mp hentry
    exact hfinite i j
  have hcarry (i : Fin (m + 1)) (j : Fin n) :=
    Precision.exists_carry hentries ((mem_flatten_numbersOf M).mpr ⟨i, j, rfl⟩)
  choose result hresult hmoved using hcarry
  refine ⟨fun j i => result i j, ?_, hmoved⟩
  have hcolumns : columns (numbersOf result) = numbersOf fun j i => result i j :=
    columns_ofFn result
  rw [← hcolumns]
  refine transpose_of_rows (rows_numbersOf depth .matrix M) ?_
  exact mapM_ofFn fun i => mapM_ofFn fun j => hresult i j

/-! ## An integer beside a double -/

/-- A row of an integer that no double equals and of a double. -/
def mixedRow : Matrix (Fin 1) (Fin 2) Number := fun _ => ![.int (2 ^ 53 + 1), .float 0.5]

theorem value?_half : (Number.float 0.5).value? = some (1 / 2) := by
  have hparts : Binary64.parts 0.5 = .finite false (2 ^ 52) (-53) := by decide +kernel
  rw [Number.value?, Binary64.value?, hparts, Binary64.Parts.value?]
  norm_num

theorem isFinite_mixedRow (i : Fin 1) (j : Fin 2) : ∃ q, (mixedRow i j).value? = some q := by
  match j with
  | 0 => exact ⟨_, rfl⟩
  | 1 => exact ⟨_, value?_half⟩

theorem transpose_mixedRow :
    transpose 0 ((numbersOf mixedRow).map vectorValue) =
      .ok (matrixValue [[.int (2 ^ 53)], [.float 0.5]]) := by
  have hcarried : (numbersOf mixedRow).mapM (fun row => row.mapM fun entry =>
      Precision.carry entry (.ofMoved (numbersOf mixedRow).flatten)) =
        .ok [[.int (2 ^ 53), .float 0.5]] := by decide +kernel
  exact transpose_of_rows (rows_numbersOf 0 .matrix mixedRow) hcarried

theorem heldAsDoubles_mixedRow : Precision.HeldAsDoubles (numbersOf mixedRow).flatten := by
  refine ⟨⟨0.5, (mem_flatten_numbersOf mixedRow).mpr ⟨0, 1, rfl⟩⟩, ?_⟩
  rintro ⟨entry, hentry, hbeyond⟩
  obtain ⟨i, j, rfl⟩ := (mem_flatten_numbersOf mixedRow).mp hentry
  match j with
  | 0 =>
    have hint : (mixedRow i 0).value? = some ((2 ^ 53 + 1 : Int) : ℚ) := rfl
    rw [Number.exceeds_iff (Number.value?_abs hint)] at hbeyond
    norm_num at hbeyond
  | 1 =>
    have hfloat : (mixedRow i 1).value? = some (1 / 2) := value?_half
    rw [Number.exceeds_iff (Number.value?_abs hfloat)] at hbeyond
    norm_num at hbeyond

/-- Beside a double the integer is rounded. -/
theorem transpose_entries_mixedRow :
    ∃ T : Matrix (Fin 2) (Fin 1) Number,
      transpose 0 ((numbersOf mixedRow).map vectorValue) = .ok (matrixValue (numbersOf T)) ∧
        T 0 0 = .int (2 ^ 53) ∧ T 1 0 = .float 0.5 := by
  obtain ⟨T, htranspose, hmoved⟩ := transpose_entries 0 mixedRow isFinite_mixedRow
  refine ⟨T, htranspose, (hmoved 0 0).rounded _ rfl heldAsDoubles_mixedRow, ?_⟩
  have hfraction : Binary64.isIntegral 0.5 = false := by decide +kernel
  rw [(hmoved 0 1).float _ rfl fun _ => hfraction]
  exact Number.normalize_of_not_integral hfraction

/-- Entries are not moved exactly in general. -/
theorem transpose_not_exact :
    ¬ ∀ (depth m n : Nat) (M : Matrix (Fin (m + 1)) (Fin (n + 1)) Number),
      (∀ i j, ∃ q, (M i j).value? = some q) →
        ∃ T : Matrix (Fin (n + 1)) (Fin (m + 1)) Number,
          transpose depth ((numbersOf M).map vectorValue) = .ok (matrixValue (numbersOf T)) ∧
            ∀ i j, T j i = (M i j).normalize := by
  intro h
  obtain ⟨T, htranspose, hexact⟩ := h 0 0 1 mixedRow isFinite_mixedRow
  rw [transpose_mixedRow] at htranspose
  have hentry : T 0 0 = .int (2 ^ 53 + 1) := hexact 0 0
  have hvalue := Except.ok.inj htranspose
  simp [matrixValue, vectorValue, numbersOf, List.ofFn_succ, hentry] at hvalue

end Matrix

end StackScript
