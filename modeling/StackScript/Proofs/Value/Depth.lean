import StackScript.Proofs.Simulation.Alike
import StackScript.Proofs.Text.Trim
import StackScript.Proofs.Value.Cutting
import StackScript.Value.Coerce

/-! # Depth that is enough

Reading a text takes no more nested calls than the text has code points, up to a factor: what
lies inside of brackets is shorter than the text with them. So there is a depth at which a
text is not cut short, and no greater depth changes what it is read as. The texts in what is read
are shorter too.
-/

namespace StackScript

/-- All texts in the value, at any depth of its lists, have fewer than `n` code points. Objects are
not looked into. -/
inductive Value.IsWithin (n : Nat) : Value → Prop
  | text {t : Text} (hlength : t.length < n) : IsWithin n (.text t)
  | bool (b : Bool) : IsWithin n (.bool b)
  | null : IsWithin n .null
  | number (m : Number) : IsWithin n (.number m)
  | list {items : List Value} (hitems : ∀ v ∈ items, IsWithin n v) : IsWithin n (.list items)
  | object (fields : List (Text × Value)) : IsWithin n (.object fields)

theorem Value.IsWithin.mono {m n : Nat} {v : Value} (hv : v.IsWithin m) (hle : m ≤ n) :
    v.IsWithin n := by
  induction hv with
  | text hlength => exact .text (Nat.lt_of_lt_of_le hlength hle)
  | bool b => exact .bool b
  | null => exact .null
  | number m => exact .number m
  | list _ ih => exact .list ih
  | object fields => exact .object fields

/-! ## Array texts -/

theorem Number.read?_avoids (t : Text) : Avoids .tooDeep (Number.read? t) := by
  unfold Number.read? Number.readInt
  simp only
  split
  · split
    · exact .error nofun
    · exact .ok _
  · exact .ok _

namespace ArrayText

theorem element_avoids {array : Text → Except Fault (List Value)} {part : Text}
    (harray : Avoids .tooDeep (array (Text.trim part))) : Avoids .tooDeep (element array part) := by
  simp only [element]
  split
  · refine (Number.read?_avoids _).bind fun found _ => ?_
    split <;> exact .ok _
  split
  · exact .ok _
  split
  · exact harray.bind fun items _ => .ok _
  · exact .ok _

/-- An array text is not cut short if there are three calls for each of its code points, and
three more. -/
theorem read_avoids {depth : Nat} {t : Text} (hdepth : 3 * t.length + 3 ≤ depth) :
    Avoids .tooDeep (read depth t) := by
  induction depth using Nat.strongRecOn generalizing t with
  | ind depth ih =>
    match depth with
    | 0 | 1 | 2 => omega
    | depth + 3 =>
        rw [read]
        split
        · exact .ok _
        next hinner =>
          -- what stands between the brackets is shorter by them
          have hlength : 2 < t.length := by
            have hne : Text.inner t ≠ [] := by
              intro h
              rw [h] at hinner
              exact hinner rfl
            have hpos := List.length_pos_iff.mpr hne
            rw [Text.length_inner] at hpos
            omega
          refine .mapM fun part hpart => element_avoids (ih depth (by omega) ?_)
          have hpart := (sublist_of_mem_splitFrom hpart).length_le
          have htrim := (Text.trim_sublist part).length_le
          rw [Text.length_inner] at hpart
          omega

end ArrayText

/-! ## Matrix texts -/

namespace Json

variable {α β : Type} {t u : Text}

/-- Reading is not cut short, gives something with the property if it gives anything, and leaves no
more than it was given. -/
structure Proceeds (P : α → Prop) (t : Text) (x : Except Failure (α × Text)) : Prop where
  avoids : Avoids .tooDeep x
  holds : ∀ a rest, x = .ok (a, rest) → P a
  rest : ∀ a rest, x = .ok (a, rest) → rest.length ≤ t.length

namespace Proceeds

variable {P : α → Prop} {Q : β → Prop}

theorem ok {a : α} (ha : P a) (h : u.length ≤ t.length) : Proceeds P t (.ok (a, u)) where
  avoids := .ok _
  holds := by
    rintro _ _ ⟨⟩
    exact ha
  rest := by
    rintro _ _ ⟨⟩
    exact h

theorem invalid : Proceeds P t (.error .invalid : Except Failure (α × Text)) where
  avoids := .error nofun
  holds := nofun
  rest := nofun

theorem mono {x : Except Failure (α × Text)} (hx : Proceeds P u x) (h : u.length ≤ t.length) :
    Proceeds P t x where
  avoids := hx.avoids
  holds := hx.holds
  rest := fun a rest hok => (hx.rest a rest hok).trans h

theorem bind {x : Except Failure (α × Text)} {f : α × Text → Except Failure (β × Text)}
    (hx : Proceeds P t x)
    (hf : ∀ a rest, P a → rest.length ≤ t.length → Proceeds Q t (f (a, rest))) :
    Proceeds Q t (x >>= f) := by
  cases x with
  | error failure =>
      refine ⟨fun h => ?_, nofun, nofun⟩
      cases h
      exact hx.avoids rfl
  | ok read => exact hf read.1 read.2 (hx.holds read.1 read.2 rfl) (hx.rest read.1 read.2 rfl)

theorem map {x : Except Failure (α × Text)} {f : α → β} (hx : Proceeds P t x)
    (hf : ∀ a, P a → Q (f a)) : Proceeds Q t (x.map fun read => (f read.1, read.2)) := by
  cases x with
  | error failure =>
      refine ⟨fun h => ?_, nofun, nofun⟩
      cases h
      exact hx.avoids rfl
  | ok read => exact ok (hf _ (hx.holds read.1 read.2 rfl)) (hx.rest read.1 read.2 rfl)

end Proceeds

theorem length_skipBlanks_le (t : Text) : (skipBlanks t).length ≤ t.length :=
  (List.dropWhile_suffix isBlank).length_le

theorem length_spanDigits_le (t : Text) : (Numeral.spanDigits t).2.length ≤ t.length :=
  (List.dropWhile_suffix Char.isDigit).length_le

theorem length_splitSign_le (t : Text) : (Numeral.splitSign t).2.length ≤ t.length := by
  unfold Numeral.splitSign
  split <;> simp

/-! ### Values without parts -/

theorem length_units?_lt {units : List Nat} {rest : Text} (hunits : units? t = some (units, rest)) :
    units.length + rest.length < t.length := by
  fun_induction units? t generalizing units with
  | case1 => cases hunits
  | case2 more =>
      cases hunits
      simp
  | case3 a b c d more ih =>
      simp only [bind, Option.bind_eq_some_iff] at hunits
      obtain ⟨first, -, ⟨others, rest'⟩, hmore, hresult⟩ := hunits
      cases hresult
      have hshorter : others.length + rest'.length < _ := ih hmore
      simp only [List.length_cons]
      omega
  | case4 c more _ ih =>
      simp only [bind, Option.bind_eq_some_iff] at hunits
      obtain ⟨first, -, ⟨others, rest'⟩, hmore, hresult⟩ := hunits
      cases hresult
      have hshorter : others.length + rest'.length < _ := ih hmore
      simp only [List.length_cons]
      omega
  | case5 => cases hunits
  | case6 c more _ _ _ _ ih =>
      simp only [bind, Option.bind_eq_some_iff] at hunits
      obtain ⟨⟨others, rest'⟩, hmore, hresult⟩ := hunits
      cases hresult
      have hshorter : others.length + rest'.length < _ := ih hmore
      simp only [List.length_cons]
      omega

theorem length_joinUnits_le (units : List Nat) : (joinUnits units).length ≤ units.length := by
  fun_induction joinUnits units with
  | case1 => exact Nat.le_refl _
  | case2 u => exact Nat.le_refl _
  | case3 u w rest _ ih => exact Nat.succ_le_succ (ih.trans (Nat.le_succ _))
  | case4 u w rest _ ih => exact Nat.succ_le_succ ih

/-- A string is shorter than the text that spells it. -/
theorem string_proceeds (t : Text) : Proceeds (·.length < t.length) t (string t) := by
  unfold string
  split
  next units rest hunits =>
    have hlength := length_units?_lt hunits
    have hjoined := length_joinUnits_le units
    exact .ok (by omega) (by omega)
  next => exact .invalid

theorem length_whole?_le {digits rest : Text} (hwhole : whole? t = some (digits, rest)) :
    rest.length ≤ t.length := by
  unfold whole? at hwhole
  split at hwhole
  next =>
    cases hwhole
    exact Nat.le_succ _
  next =>
    simp only at hwhole
    split at hwhole
    · cases hwhole
    · cases hwhole
      exact length_spanDigits_le t

theorem length_fraction_le (t : Text) : (fraction t).2.length ≤ t.length := by
  unfold fraction
  split
  next rest =>
    simp only
    split
    · exact le_refl _
    · exact (length_spanDigits_le rest).trans (Nat.le_succ _)
  next => exact le_refl _

theorem length_exponent?_le {power : Int} {rest : Text}
    (hexponent : exponent? t = some (power, rest)) : rest.length ≤ t.length := by
  unfold exponent? at hexponent
  split at hexponent
  next c more =>
    simp only at hexponent
    split at hexponent
    · cases hexponent
      have hdigits := length_spanDigits_le (Numeral.splitSign more).2
      have hsign := length_splitSign_le more
      exact (hdigits.trans hsign).trans (Nat.le_succ _)
    · cases hexponent
  next => cases hexponent

theorem number_proceeds {n : Nat} (t : Text) : Proceeds (Value.IsWithin n) t (number t) := by
  unfold number
  split
  next negative unsigned hsplit =>
    have hunsigned : unsigned.length ≤ t.length := by
      split at hsplit
      · cases hsplit
        exact Nat.le_succ _
      · cases hsplit
        exact le_refl _
    split
    next => exact .invalid
    next digits rest hwhole =>
      have hplaces := (length_fraction_le rest).trans ((length_whole?_le hwhole).trans hunsigned)
      simp only
      split
      next power more hexponent =>
        exact .ok (.number _) ((length_exponent?_le hexponent).trans hplaces)
      next =>
        split
        · exact .ok (.number _) hplaces
        split
        · exact .invalid
        · exact .ok (.number _) hplaces

theorem isWithin_of_mem_words {n : Nat} {word : Text × Value} (hword : word ∈ words) :
    word.2.IsWithin n := by
  simp only [words, List.mem_cons, List.not_mem_nil, or_false] at hword
  rcases hword with rfl | rfl | rfl | rfl | rfl | rfl
  · exact .null
  · exact .bool true
  · exact .bool false
  all_goals exact .number _

theorem scalar_proceeds {n : Nat} (t : Text) (ht : t.length ≤ n) :
    Proceeds (Value.IsWithin n) t (scalar t) := by
  unfold scalar
  split
  next rest =>
    refine ((string_proceeds rest).map fun s hs => .text ?_).mono (Nat.le_succ _)
    exact hs.trans (Nat.lt_of_succ_le ht)
  next =>
    split
    next word value hfind =>
      refine .ok (isWithin_of_mem_words (List.mem_of_find?_eq_some hfind)) ?_
      rw [List.length_drop]
      exact Nat.sub_le _ _
    next => exact number_proceeds t

/-! ### Values with parts -/

section Parts

variable {read : Reader Value} {n size : Nat}
  (hread : ∀ t, t.length ≤ n → Proceeds (Value.IsWithin size) t (read t))

include hread

theorem elements_proceeds (bound : Nat) (t : Text) (ht : t.length ≤ n) :
    Proceeds (∀ v ∈ ·, Value.IsWithin size v) t (elements read bound t) := by
  induction bound generalizing t with
  | zero => exact .invalid
  | succ bound ih =>
      rw [elements]
      refine (hread t ht).bind fun first rest hfirst hrest => ?_
      have hskip := (length_skipBlanks_le rest).trans hrest
      simp only
      split
      next more h =>
        rw [h] at hskip
        exact .ok (List.forall_mem_singleton.mpr hfirst) (Nat.le_of_succ_le hskip)
      next more h =>
        rw [h] at hskip
        have hmore := (length_skipBlanks_le more).trans (Nat.le_of_succ_le hskip)
        refine ((ih _ (hmore.trans ht)).mono hmore).bind fun others rest hothers hrest => ?_
        exact .ok (List.forall_mem_cons.mpr ⟨hfirst, hothers⟩) hrest
      next => exact .invalid

theorem field_proceeds (t : Text) (ht : t.length ≤ n) :
    Proceeds (fun _ => True) t (field read t) := by
  unfold field
  split
  next rest =>
    refine ((string_proceeds rest).mono (Nat.le_succ _)).bind fun name rest _ hrest => ?_
    have hskip := (length_skipBlanks_le rest).trans hrest
    simp only
    split
    next more h =>
      rw [h] at hskip
      have hmore := (length_skipBlanks_le more).trans (Nat.le_of_succ_le hskip)
      exact ((hread _ (hmore.trans ht)).mono hmore).bind fun v rest _ hrest => .ok trivial hrest
    next => exact .invalid
  next => exact .invalid

theorem fields_proceeds (bound : Nat) (t : Text) (ht : t.length ≤ n) :
    Proceeds (fun _ => True) t (fields read bound t) := by
  induction bound generalizing t with
  | zero => exact .invalid
  | succ bound ih =>
      rw [fields]
      refine (field_proceeds hread t ht).bind fun first rest _ hrest => ?_
      have hskip := (length_skipBlanks_le rest).trans hrest
      simp only
      split
      next more h =>
        rw [h] at hskip
        exact .ok trivial (Nat.le_of_succ_le hskip)
      next more h =>
        rw [h] at hskip
        have hmore := (length_skipBlanks_le more).trans (Nat.le_of_succ_le hskip)
        refine ((ih _ (hmore.trans ht)).mono hmore).bind fun others rest _ hrest => ?_
        exact .ok trivial hrest
      next => exact .invalid

theorem container_proceeds (opener : Char) (t : Text) (ht : t.length ≤ n) :
    Proceeds (Value.IsWithin size) t (container read opener t) := by
  have hskip := length_skipBlanks_le t
  simp only [container]
  split
  · split
    next rest h =>
      rw [h] at hskip
      exact .ok (.list (List.forall_mem_nil _)) (Nat.le_of_succ_le hskip)
    next =>
      have helements := (elements_proceeds hread (skipBlanks t).length _ (hskip.trans ht)).mono hskip
      exact helements.map fun _ => .list
  · split
    next rest h =>
      rw [h] at hskip
      exact .ok (.object _) (Nat.le_of_succ_le hskip)
    next =>
      have hfields := (fields_proceeds hread (skipBlanks t).length _ (hskip.trans ht)).mono hskip
      exact hfields.map
        (f := fun read => Value.object (read.foldl (fun object f => setField object f.1 f.2) []))
        fun _ _ => Value.IsWithin.object _

end Parts

/-- What is read from a text holds only texts that are shorter. -/
theorem value_proceeds {depth size : Nat} (t : Text) (ht : t.length ≤ depth)
    (hsize : t.length ≤ size) : Proceeds (Value.IsWithin size) t (value depth t) := by
  induction depth generalizing t with
  | zero =>
      obtain rfl := List.length_eq_zero_iff.mp (Nat.le_zero.mp ht)
      rw [value]
      exact .invalid
  | succ depth ih =>
      cases t with
      | nil =>
          rw [value]
          exact .invalid
      | cons c rest =>
          rw [value]
          split
          · have hread (u : Text) (hu : u.length ≤ min depth size) :=
              ih u (hu.trans (min_le_left _ _)) (hu.trans (min_le_right _ _))
            have hrest := le_min (Nat.le_of_succ_le_succ ht) (Nat.le_of_succ_le hsize)
            exact (container_proceeds hread c rest hrest).mono (Nat.le_succ _)
          · exact scalar_proceeds _ hsize

section

variable {depth : Nat} (hdepth : t.length ≤ depth)

include hdepth

theorem read_proceeds : Proceeds (Value.IsWithin t.length) t (value depth (skipBlanks t)) :=
  have hskip := length_skipBlanks_le t
  (value_proceeds (skipBlanks t) (hskip.trans hdepth) hskip).mono hskip

/-- A matrix text is not cut short if there is a call for each of its code points. -/
theorem readList?_avoids : Avoids .tooDeep (readList? depth t) := by
  have hread : Avoids .tooDeep (read depth t) := by
    refine (read_proceeds hdepth).avoids.bind fun (v, rest) _ => ?_
    simp only
    split
    · exact .ok _
    · exact .error nofun
  unfold readList?
  split
  next => exact .ok _
  next h => exact absurd h hread
  next => exact .ok _

theorem isWithin_of_readList? {items : List Value} (hitems : readList? depth t = .ok (some items)) :
    ∀ v ∈ items, v.IsWithin t.length := by
  unfold readList? at hitems
  split at hitems
  next hread =>
    cases hitems
    unfold read at hread
    cases hvalue : value depth (skipBlanks t) with
    | error failure =>
        rw [hvalue] at hread
        cases hread
    | ok found =>
        rw [hvalue] at hread
        change (if (skipBlanks found.2).isEmpty = true then Except.ok found.1 else _) = _ at hread
        split at hread
        next =>
          have hwithin := (read_proceeds hdepth).holds found.1 found.2 hvalue
          rw [Except.ok.inj hread] at hwithin
          cases hwithin with
          | list hitems => exact hitems
        next => cases hread
  next => cases hitems
  next => cases hitems

end

end Json

end StackScript
