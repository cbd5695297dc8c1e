import Mathlib.Data.List.Zip
import StackScript.Operator.Operation
import StackScript.Proofs.Value.Shown

/-! # Sums of nested lists

Lists are added element by element as far as both go, at every level. What decides about a sum is
found at the positions that both operands have: two lists or two integers must stand at each of
them. Elements beyond the shorter list have no influence, whatever they are.
-/

namespace StackScript

theorem mapM_eq_ok_of_forall₂ {ε α β : Type} {f : α → Except ε β} {items : List α}
    {results : List β} (h : List.Forall₂ (fun a b => f a = .ok b) items results) :
    items.mapM f = .ok results := by
  induction h with
  | nil => rfl
  | cons hhead _ ih =>
      rw [List.mapM_cons, hhead, ih]
      rfl

theorem getElem?_of_forall₂_zip {α β γ : Type} {R : α × β → γ → Prop} {xs : List α} {ys : List β}
    {zs : List γ} (h : List.Forall₂ R (xs.zip ys) zs) {i : Nat} {x : α} {y : β}
    (hx : xs[i]? = some x) (hy : ys[i]? = some y) : ∃ z, zs[i]? = some z ∧ R (x, y) z := by
  have hpair : (xs.zip ys)[i]? = some (x, y) := List.getElem?_zip_eq_some.mpr ⟨hx, hy⟩
  obtain ⟨hi, hpair⟩ := List.getElem?_eq_some_iff.mp hpair
  have hi' : i < zs.length := h.length_eq ▸ hi
  refine ⟨zs[i], List.getElem?_eq_getElem hi', ?_⟩
  rw [← hpair]
  exact h.get hi hi'

namespace Value

/-! ## Positions -/

/-- The element at a position: an index for each level of nesting, from the outermost on. -/
def elementAt? : List Nat → Value → Option Value
  | [], v => some v
  | i :: position, .list items => items[i]?.bind (elementAt? position)
  | _ :: _, _ => none

/-- Both values are lists, or both are integers. -/
def Matches (v w : Value) : Prop :=
  (∃ xs ys, v = .list xs ∧ w = .list ys) ∨ ∃ m n, v = .ofInt m ∧ w = .ofInt n

/-- Wherever both values have an element, the two are lists or the two are integers. -/
def Agrees (v w : Value) : Prop :=
  ∀ position x y, v.elementAt? position = some x → w.elementAt? position = some y → x.Matches y

variable {v w sum : Value} {xs ys zs : List Value}

/-- The value is the sum of two others on the positions that both have. -/
structure IsSum (v w sum : Value) : Prop where
  list : ∀ position xs ys, v.elementAt? position = some (.list xs) →
    w.elementAt? position = some (.list ys) →
      ∃ zs, sum.elementAt? position = some (.list zs) ∧ zs.length = min xs.length ys.length
  int : ∀ position m n, v.elementAt? position = some (.ofInt m) →
    w.elementAt? position = some (.ofInt n) → sum.elementAt? position = some (.ofInt (m + n))

theorem elementAt?_cons_eq_some {i : Nat} {position : List Nat} :
    v.elementAt? (i :: position) = some w ↔
      ∃ items x, v = .list items ∧ items[i]? = some x ∧ x.elementAt? position = some w := by
  cases v with
  | list items => simp [elementAt?, Option.bind_eq_some_iff]
  | _ => simp [elementAt?]

theorem elementAt?_list_cons {i : Nat} {position : List Nat} {x : Value} (hx : xs[i]? = some x) :
    (Value.list xs).elementAt? (i :: position) = x.elementAt? position := by
  rw [elementAt?, hx, Option.bind_some]

/-- Lists agree if the elements that are met in pairs do. -/
theorem agrees_list (h : ∀ pair ∈ xs.zip ys, pair.1.Agrees pair.2) :
    (Value.list xs).Agrees (.list ys) := by
  intro position x y hx hy
  cases position with
  | nil =>
      cases hx
      cases hy
      exact .inl ⟨xs, ys, rfl, rfl⟩
  | cons i position =>
      obtain ⟨_, x', ⟨⟩, hxi, hx⟩ := elementAt?_cons_eq_some.mp hx
      obtain ⟨_, y', ⟨⟩, hyi, hy⟩ := elementAt?_cons_eq_some.mp hy
      have hpair : (xs.zip ys)[i]? = some (x', y') := List.getElem?_zip_eq_some.mpr ⟨hxi, hyi⟩
      exact h (x', y') (List.mem_of_getElem? hpair) position x y hx hy

theorem Agrees.pair (h : (Value.list xs).Agrees (.list ys)) {pair : Value × Value}
    (hpair : pair ∈ xs.zip ys) : pair.1.Agrees pair.2 := by
  obtain ⟨i, hi⟩ := List.mem_iff_getElem?.mp hpair
  obtain ⟨hx, hy⟩ := List.getElem?_zip_eq_some.mp hi
  intro position x y hx' hy'
  exact h (i :: position) x y (elementAt?_list_cons hx ▸ hx') (elementAt?_list_cons hy ▸ hy')

/-- The list of the sums of the pairs is the sum of the lists. -/
theorem isSum_list (h : List.Forall₂ (fun pair z => pair.1.IsSum pair.2 z) (xs.zip ys) zs) :
    (Value.list xs).IsSum (.list ys) (.list zs) where
  list := by
    intro position xs' ys' hxs hys
    cases position with
    | nil =>
        cases hxs
        cases hys
        exact ⟨zs, rfl, by rw [← h.length_eq, List.length_zip]⟩
    | cons i position =>
        obtain ⟨_, x, ⟨⟩, hx, hxs⟩ := elementAt?_cons_eq_some.mp hxs
        obtain ⟨_, y, ⟨⟩, hy, hys⟩ := elementAt?_cons_eq_some.mp hys
        obtain ⟨z, hz, hsum⟩ := getElem?_of_forall₂_zip h hx hy
        rw [elementAt?_list_cons hz]
        exact hsum.list position xs' ys' hxs hys
  int := by
    intro position m n hm hn
    cases position with
    | nil => cases hm
    | cons i position =>
        obtain ⟨_, x, ⟨⟩, hx, hm⟩ := elementAt?_cons_eq_some.mp hm
        obtain ⟨_, y, ⟨⟩, hy, hn⟩ := elementAt?_cons_eq_some.mp hn
        obtain ⟨z, hz, hsum⟩ := getElem?_of_forall₂_zip h hx hy
        rw [elementAt?_list_cons hz]
        exact hsum.int position m n hm hn

theorem agrees_ofInt (m n : Int) : (ofInt m).Agrees (ofInt n) := by
  intro position x y hx hy
  cases position with
  | nil =>
      cases hx
      cases hy
      exact .inr ⟨m, n, rfl, rfl⟩
  | cons i position => cases hx

theorem isSum_ofInt (m n : Int) : (ofInt m).IsSum (ofInt n) (ofInt (m + n)) where
  list := by
    intro position xs ys hxs
    cases position <;> cases hxs
  int := by
    intro position m' n' hm hn
    cases position with
    | nil =>
        cases hm
        cases hn
        rfl
    | cons => cases hm

end Value

namespace Operation

open Value

variable {depth : Nat} {v w sum : Value}

/-! ## Addition -/

theorem addElements_ofInt (depth : Nat) (m n : Int) :
    addElements depth (ofInt m) (ofInt n) = .ok (ofInt (m + n)) := by
  simp only [ofInt, addElements]
  rfl

/-- What does not match is not added, and the message shows both. -/
theorem addElements_of_not_matches (hv : v.IsPlain) (hw : w.IsPlain) (hclash : ¬ v.Matches w)
    (depth : Nat) :
    addElements depth v w = (do .error (.unaddable (← v.inspect depth) (← w.inspect depth))) := by
  cases hv with
  | list =>
      cases hw with
      | list => exact absurd (.inl ⟨_, _, rfl, rfl⟩) hclash
      | _ => simp only [addElements]
  | int =>
      cases hw with
      | int => exact absurd (.inr ⟨_, _, rfl, rfl⟩) hclash
      | _ => simp only [addElements]
  | bool => cases hw <;> simp only [addElements]

/-- Two plain values are lists, whose elements are met in pairs, or integers, or do not match. -/
theorem matches_induction {motive : Value → Value → Prop}
    (list : ∀ {xs ys}, (∀ pair ∈ xs.zip ys, motive pair.1 pair.2) → motive (.list xs) (.list ys))
    (int : ∀ m n, motive (ofInt m) (ofInt n))
    (clash : ∀ {v w}, v.IsPlain → w.IsPlain → ¬ v.Matches w → motive v w)
    (hv : v.IsPlain) (hw : w.IsPlain) : motive v w := by
  by_cases hmatch : v.Matches w
  · induction hv generalizing w with
    | int =>
        obtain ⟨_, _, ⟨⟩, -⟩ | ⟨m, n, hm, rfl⟩ := hmatch
        exact hm ▸ int m n
    | bool => obtain ⟨_, _, ⟨⟩, -⟩ | ⟨_, _, ⟨⟩, -⟩ := hmatch
    | @list xs hxs ih =>
        obtain ⟨_, ys, ⟨⟩, rfl⟩ | ⟨_, _, ⟨⟩, -⟩ := hmatch
        cases hw with
        | list hys =>
            refine list fun pair hpair => ?_
            obtain ⟨hx, hy⟩ := List.of_mem_zip hpair
            by_cases hpair : pair.1.Matches pair.2
            · exact ih pair.1 hx (hys pair.2 hy) hpair
            · exact clash (hxs pair.1 hx) (hys pair.2 hy) hpair
  · exact clash hv hw hmatch

theorem addElements_list (depth : Nat) (xs ys : List Value) :
    addElements (depth + 2) (.list xs) (.list ys) =
      (do return .list (← (xs.zip ys).mapM fun pair => addElements depth pair.1 pair.2)) := by
  simp only [addElements]

theorem addElements_list_eq_ok {xs ys : List Value}
    (hok : addElements depth (.list xs) (.list ys) = .ok sum) :
    ∃ d zs, depth = d + 2 ∧ sum = .list zs ∧
      List.Forall₂ (fun pair z => addElements d pair.1 pair.2 = .ok z) (xs.zip ys) zs := by
  match depth with
  | 0 | 1 =>
      simp only [addElements] at hok
      cases hok
  | d + 2 =>
      rw [addElements_list] at hok
      cases hsums : (xs.zip ys).mapM fun pair => addElements d pair.1 pair.2 with
      | error fault =>
          rw [hsums] at hok
          cases hok
      | ok zs =>
          rw [hsums] at hok
          cases hok
          exact ⟨d, zs, rfl, rfl, forall₂_of_mapM_eq_ok hsums⟩

/-- A sum that is given is one on the common positions, and the order of its operands does not
matter. -/
theorem addElements_eq_ok (hv : v.IsPlain) (hw : w.IsPlain)
    (hok : addElements depth v w = .ok sum) :
    v.Agrees w ∧ v.IsSum w sum ∧ addElements depth w v = .ok sum := by
  refine matches_induction (motive := fun v w => ∀ depth sum, addElements depth v w = .ok sum →
    v.Agrees w ∧ v.IsSum w sum ∧ addElements depth w v = .ok sum)
    ?list ?int ?clash hv hw depth sum hok
  case list =>
    intro xs ys ih depth sum hok
    obtain ⟨d, zs, rfl, rfl, hsums⟩ := addElements_list_eq_ok hok
    have hparts := ((List.forall₂_and_left _ _).mpr ⟨ih, hsums⟩).imp fun pair z h => h.1 d z h.2
    obtain ⟨hagree, hparts⟩ := (List.forall₂_and_left _ _).mp hparts
    have hswapped : List.Forall₂ (fun pair z => addElements d pair.1 pair.2 = .ok z)
        (ys.zip xs) zs := by
      rw [← List.zip_swap, List.forall₂_map_left_iff]
      exact hparts.imp fun pair z h => h.2
    refine ⟨agrees_list hagree, isSum_list (hparts.imp fun pair z h => h.1), ?_⟩
    rw [addElements_list, mapM_eq_ok_of_forall₂ hswapped]
    rfl
  case int =>
    intro m n depth sum hok
    rw [addElements_ofInt] at hok
    cases hok
    refine ⟨agrees_ofInt m n, isSum_ofInt m n, ?_⟩
    rw [addElements_ofInt, Int.add_comm]
  case clash =>
    intro v w hv hw hclash depth sum hok
    rw [addElements_of_not_matches hv hw hclash] at hok
    cases hleft : v.inspect depth with
    | error fault =>
        rw [hleft] at hok
        cases hok
    | ok left =>
        cases hright : w.inspect depth with
        | error fault =>
            rw [hleft, hright] at hok
            cases hok
        | ok right =>
            rw [hleft, hright] at hok
            cases hok

/-- Without enough depth a sum may be cut short. It fails otherwise only because of a position at
which the operands do not match. -/
theorem addElements_fails (hv : v.IsPlain) (hw : w.IsPlain) (depth : Nat) :
    FailsBy (fun fault : Fault => fault = .tooDeep ∨ fault.category = .operandType ∧ ¬ v.Agrees w)
      (addElements depth v w) := by
  refine matches_induction (motive := fun v w => ∀ depth,
    FailsBy (fun fault : Fault => fault = .tooDeep ∨ fault.category = .operandType ∧ ¬ v.Agrees w)
      (addElements depth v w)) ?list ?int ?clash hv hw depth
  case list =>
    intro xs ys ih depth
    match depth with
    | 0 | 1 =>
        simp only [addElements]
        exact .error (.inl rfl)
    | depth + 2 =>
        rw [addElements_list]
        refine (FailsBy.mapM fun pair hpair fault hfault => ?_).bind fun _ _ => .ok _
        refine (ih pair hpair depth fault hfault).imp_right (And.imp_right fun hdiffers h => ?_)
        exact hdiffers (h.pair hpair)
  case int =>
    intro m n depth
    rw [addElements_ofInt]
    exact .ok _
  case clash =>
    intro v w hv hw hclash depth
    rw [addElements_of_not_matches hv hw hclash]
    have hshown {x : Value} (hx : x.IsPlain) : FailsBy (fun fault : Fault => fault = .tooDeep ∨
        fault.category = .operandType ∧ ¬ v.Agrees w) (x.inspect depth) :=
      fun fault hfault => .inl (hx.isExact.inspect_fails depth fault hfault)
    refine (hshown hv).bind fun _ _ => (hshown hw).bind fun _ _ => .error (.inr ⟨rfl, ?_⟩)
    exact fun hagrees => hclash (hagrees [] v w rfl rfl)

theorem addElements_exists_enough (hv : v.IsPlain) (hw : w.IsPlain) :
    ∃ enough, ∀ depth, enough ≤ depth → Avoids .tooDeep (addElements depth v w) := by
  refine matches_induction (motive := fun v w => ∃ enough, ∀ depth, enough ≤ depth →
    Avoids .tooDeep (addElements depth v w)) ?list ?int ?clash hv hw
  case list =>
    intro xs ys ih
    refine exists_enough_add 2 (exists_enough_forall_mem ih) fun depth hpairs => ?_
    rw [addElements_list]
    exact (Avoids.mapM hpairs).bind fun _ _ => .ok _
  case int =>
    intro m n
    refine ⟨0, fun depth _ => ?_⟩
    rw [addElements_ofInt]
    exact .ok _
  case clash =>
    intro v w hv hw hclash
    obtain ⟨enough, hleft⟩ := hv.isExact.exists_enough
    obtain ⟨enough', hright⟩ := hw.isExact.exists_enough
    refine ⟨max enough enough', fun depth hdepth => ?_⟩
    rw [addElements_of_not_matches hv hw hclash, Avoids.iff_failsBy]
    refine FailsBy.bind (fun fault hfault => ?_) fun _ _ => FailsBy.bind (fun fault hfault => ?_)
      fun _ _ => .error nofun
    · exact (hleft depth ((le_max_left _ _).trans hdepth) fault hfault).elim
    · exact (hright depth ((le_max_right _ _).trans hdepth) fault hfault).elim

/-- Where enough depth is left, two nested lists of integers and truth values have a sum if and only
if they agree on all positions that both have, and otherwise they are refused as operands. At each
of these positions the sum has a list of the lesser length or the sum of the integers. To exchange
the operands changes neither. -/
theorem addElements_commonPositions (hv : v.IsPlain) (hw : w.IsPlain) :
    ∃ enough, ∀ depth, enough ≤ depth →
      ((∃ sum, addElements depth v w = .ok sum) ↔ v.Agrees w) ∧
      (∀ fault, addElements depth v w = .error fault → fault.category = .operandType) ∧
      (∀ sum, addElements depth v w = .ok sum → v.IsSum w sum) ∧
      ∀ sum, addElements depth v w = .ok sum ↔ addElements depth w v = .ok sum := by
  obtain ⟨enough, henough⟩ := addElements_exists_enough hv hw
  refine ⟨enough, fun depth hdepth => ?_⟩
  have hfails (fault : Fault) (hfault : addElements depth v w = .error fault) :
      fault.category = .operandType ∧ ¬ v.Agrees w := by
    refine (addElements_fails hv hw depth fault hfault).resolve_left fun hdeep => ?_
    exact henough depth hdepth (hdeep ▸ hfault)
  refine ⟨⟨?_, fun hagrees => ?_⟩, fun fault hfault => (hfails fault hfault).1, ?_, ?_⟩
  · rintro ⟨sum, hok⟩
    exact (addElements_eq_ok hv hw hok).1
  · cases hresult : addElements depth v w with
    | ok sum => exact ⟨sum, rfl⟩
    | error fault => exact absurd hagrees (hfails fault hresult).2
  · exact fun sum hok => (addElements_eq_ok hv hw hok).2.1
  · exact fun sum => ⟨fun hok => (addElements_eq_ok hv hw hok).2.2,
      fun hok => (addElements_eq_ok hw hv hok).2.2⟩

/-- A truth value is cut off with whatever stands beyond the shorter list, but where it is kept it
is no integer. -/
theorem addElements_commonPositions_ragged :
    (list [list [ofInt 2, bool true], bool true]).Agrees (list [list [ofInt 20]]) ∧
    ∃ enough, ∀ depth, enough ≤ depth → ∀ sum,
      addElements depth (list [bool true]) (list [ofInt 20]) ≠ .ok sum := by
  have htwo : IsPlain (ofInt 2) := .int (by decide +kernel)
  have htwenty : IsPlain (ofInt 20) := .int (by decide +kernel)
  have hsingle {x : Value} (hx : x.IsPlain) : IsPlain (list [x]) :=
    .list (List.forall_mem_singleton.mpr hx)
  have hlonger {x : Value} (hx : x.IsPlain) : IsPlain (list [x, bool true]) :=
    .list (List.forall_mem_cons.mpr ⟨hx, List.forall_mem_singleton.mpr (.bool true)⟩)
  constructor
  · obtain ⟨enough, h⟩ :=
      addElements_commonPositions (hlonger (hlonger htwo)) (hsingle (hsingle htwenty))
    have hsum : addElements (enough + 4) (list [list [ofInt 2, bool true], bool true])
        (list [list [ofInt 20]]) = .ok (list [list [ofInt 22]]) := by
      simp only [addElements_list, List.zip_cons_cons, List.zip_nil_right, List.mapM_cons,
        List.mapM_nil, addElements_ofInt]
      rfl
    exact (h (enough + 4) (Nat.le_add_right _ _)).1.mp ⟨_, hsum⟩
  · obtain ⟨enough, h⟩ := addElements_commonPositions (hsingle (.bool true)) (hsingle htwenty)
    refine ⟨enough, fun depth hdepth sum hok => ?_⟩
    have hagrees := (h depth hdepth).1.mp ⟨sum, hok⟩
    obtain ⟨_, _, ⟨⟩, -⟩ | ⟨_, _, ⟨⟩, -⟩ := hagrees [0] (bool true) (ofInt 20) rfl rfl

end Operation

end StackScript
