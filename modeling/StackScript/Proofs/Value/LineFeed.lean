import StackScript.Proofs.Numeral.Double
import StackScript.Proofs.Simulation.Value
import StackScript.Proofs.Storable.Value

/-! # Line feeds in written values

A written value takes up a single line unless it holds a line feed, and that can only come out
of a text that is written as it is, but for its double quotes. Numbers, truth values and what is
shown in full are always written on one line.
-/

namespace StackScript

/-! ## Numbers -/

namespace Number

theorem inspect_lineFeed (n : Number) : Yields ('\n' ∉ ·) n.inspect := by
  intro t hshown hfeed
  rcases mem_inspect hshown hfeed with hdigit | hmark
  · exact absurd hdigit (by decide)
  · exact absurd hmark (by decide)

theorem write_lineFeed (n : Number) : Yields ('\n' ∉ ·) n.write := n.normalize.inspect_lineFeed

end Number

/-! ## What is shown in full -/

namespace Text

theorem lineFeed_not_mem_toDigits (n : Nat) : '\n' ∉ Nat.toDigits 16 n := by
  have hdigit : ∀ d < 16, '\n' ≠ Nat.digitChar d := by decide
  induction n using Nat.strongRecOn with
  | ind n ih =>
    by_cases hless : n < 16
    · rw [Nat.toDigits_of_lt_base hless, List.mem_singleton]
      exact hdigit n hless
    · rw [Nat.toDigits_of_base_le (by decide) (by omega), List.mem_append, List.mem_singleton,
        not_or]
      exact ⟨ih (n / 16) (by omega), hdigit _ (Nat.mod_lt n (by decide))⟩

theorem lineFeed_not_mem_hexDigits (width n : Nat) : '\n' ∉ hexDigits width n := by
  simp [hexDigits, lineFeed_not_mem_toDigits]

theorem lineFeed_not_mem_escape {mark : Char} (hmark : mark ≠ '\n') (c : Char) :
    '\n' ∉ escape mark c := by
  have hhex := lineFeed_not_mem_hexDigits
  unfold escape
  split
  next h =>
    have hc : '\n' ≠ c := by
      rintro rfl
      simp [hmark.symm] at h
    simp [hc]
  split
  · decide
  split
  · decide
  next hfeed =>
    split
    · decide
    split
    · have hc : c ≠ '\n' := by simpa using hfeed
      exact fun h => hc (List.mem_singleton.mp h).symm
    split
    · simp [hhex]
    split <;> simp [hhex]

theorem lineFeed_not_mem_shown (t : Text) : '\n' ∉ shown t := by
  have hmark : quotationMark t ≠ '\n' := by
    unfold quotationMark
    split <;> decide
  rw [shown, List.mem_append, List.mem_cons, List.mem_flatMap, List.mem_singleton]
  rintro ((hfeed | ⟨c, _, hc⟩) | hfeed)
  · exact hmark hfeed.symm
  · split at hc
    next half _ => simp [lineFeed_not_mem_hexDigits] at hc
    next => exact lineFeed_not_mem_escape hmark c hc
  · exact hmark hfeed.symm

theorem mem_join {separator : Text} {c : Char} (hc : c ∉ separator) (texts : List Text) :
    c ∈ join separator texts ↔ ∃ t ∈ texts, c ∈ t := by
  induction texts with
  | nil => simp [join]
  | cons t rest ih =>
      cases rest with
      | nil => simp [join]
      | cons next rest =>
          rw [join]
          · simp [ih, hc]
          · exact List.cons_ne_nil _ _

theorem lineFeed_not_mem_join {separator : Text} {texts : List Text}
    (hseparator : '\n' ∉ separator) (htexts : ∀ t ∈ texts, '\n' ∉ t) :
    '\n' ∉ join separator texts := by
  rw [mem_join hseparator]
  rintro ⟨t, ht, hfeed⟩
  exact htexts t ht hfeed

end Text

namespace Value

theorem inspect_lineFeed (depth : Nat) (v : Value) : Yields ('\n' ∉ ·) (v.inspect depth) := by
  induction depth using Nat.strongRecOn generalizing v with
  | ind depth ih =>
    match depth, v with
    | _, .text t =>
        rw [inspect]
        exact .ok (Text.lineFeed_not_mem_shown t)
    | _, .bool b =>
        rw [inspect]
        cases b <;> exact .ok (by decide)
    | _, .null =>
        rw [inspect]
        exact .ok (by decide)
    | _, .number n =>
        rw [inspect]
        exact n.inspect_lineFeed
    | 0, .list _ | 0, .object _ => exact .error _
    | depth + 1, .list items =>
        simp only [inspect]
        refine (Yields.mapM fun v _ => ih depth (by omega) v).bind fun shown hshown => .ok ?_
        simp [Text.lineFeed_not_mem_join _ hshown]
    | depth + 1, .object fields =>
        simp only [inspect]
        have hfield (field : Text × Value) : Yields ('\n' ∉ ·) (do
            return Text.shown field.1 ++ [':', ' '] ++ (← inspect depth field.2) :
              Except Fault Text) := by
          refine (ih depth (by omega) field.2).bind fun shown hshown => .ok ?_
          simp [hshown, Text.lineFeed_not_mem_shown]
        refine (Yields.mapM fun field _ => hfield field).bind fun shown hshown => .ok ?_
        simp [Text.lineFeed_not_mem_join _ hshown]

/-! ## Where a line feed comes from -/

/-- The text, as an array or a matrix text, spells the list. -/
def SpellsList (t : Text) (items : List Value) : Prop :=
  (Text.isArrayLiteral t = true ∧ ∃ depth, ArrayText.read depth t = .ok items) ∨
    (Text.isMatrixLiteral t = true ∧ ∃ depth, Json.readList? depth t = .ok (some items))

/-- The text spells nothing that would be written in its place. -/
structure IsKept (t : Text) : Prop where
  number : Number.isNumeral t = true → Number.read? t = .ok none
  boolean : Text.isBooleanLiteral t = false
  operator : isOperatorName t = false
  array : Text.isArrayLiteral t = false
  matrix : Text.isMatrixLiteral t = true → ∃ depth, Json.readList? depth t = .ok none

/-- The written form of the value holds a line feed: the value is a text that holds one and is
kept as it is, or such a text is an element at any depth of the list that the value is or
spells. -/
inductive BreaksLine : Value → Prop
  | text {t : Text} (hkept : IsKept t) (hfeed : '\n' ∈ t) : BreaksLine (.text t)
  | spelled {t : Text} {items : List Value} {v : Value} (hspells : SpellsList t items)
      (hv : v ∈ items) (hbreaks : BreaksLine v) : BreaksLine (.text t)
  | list {items : List Value} {v : Value} (hv : v ∈ items) (hbreaks : BreaksLine v) :
      BreaksLine (.list items)

variable {t w : Text} {items : List Value} {v : Value} {depth : Nat}

theorem breaksLine_list_iff : BreaksLine (.list items) ↔ ∃ v ∈ items, BreaksLine v := by
  constructor
  · rintro ⟨⟩
    exact ⟨_, ‹_›, ‹_›⟩
  · rintro ⟨v, hv, hbreaks⟩
    exact .list hv hbreaks

/-- A text that has another form spells no list. -/
theorem not_spellsList {k : Kind} (hform : t.hasForm k = true) (hliteral : k ≠ .literal)
    (harray : k ≠ .array) (hmatrix : k ≠ .matrix) : ¬ SpellsList t items := by
  rintro (⟨h, -⟩ | ⟨h, -⟩)
  · have hother : t.hasForm .array = true := h
    exact harray (Text.hasForm_unique hform hother hliteral (by decide))
  · have hother : t.hasForm .matrix = true := h
    exact hmatrix (Text.hasForm_unique hform hother hliteral (by decide))

theorem not_isMatrixLiteral_of_isArrayLiteral (harray : Text.isArrayLiteral t = true) :
    ¬ Text.isMatrixLiteral t = true := by
  simp only [Text.isArrayLiteral, Bool.and_eq_true, Bool.not_eq_true'] at harray
  simp [Text.isMatrixLiteral, harray.2]

/-- A text spells one list at most, whatever depth it takes to read it. -/
theorem SpellsList.unique {others : List Value} (h : SpellsList t items)
    (h' : SpellsList t others) : items = others := by
  rcases h with ⟨harray, d, hread⟩ | ⟨hmatrix, d, hread⟩
  · rcases h' with ⟨_, e, hread'⟩ | ⟨hmatrix, _⟩
    · exact (ArrayText.read_alike (.inl trivial) t).eq_of_ok hread hread'
    · exact absurd hmatrix (not_isMatrixLiteral_of_isArrayLiteral harray)
  · rcases h' with ⟨harray, _⟩ | ⟨_, e, hread'⟩
    · exact absurd hmatrix (not_isMatrixLiteral_of_isArrayLiteral harray)
    · have hfound := (Json.readList?_alike (.inl trivial) t).eq_of_ok hread hread'
      exact Option.some.inj hfound

theorem IsKept.not_spellsList (hkept : IsKept t) : ¬ SpellsList t items := by
  rintro (⟨hform, -⟩ | ⟨hform, d, hread⟩)
  · rw [hkept.array] at hform
    cases hform
  · obtain ⟨e, hnone⟩ := hkept.matrix hform
    have hfound := (Json.readList?_alike (.inl trivial) t).eq_of_ok hread hnone
    cases hfound

theorem breaksLine_of_kept (hkept : IsKept t) : BreaksLine (.text t) ↔ '\n' ∈ t := by
  constructor
  · intro hbreaks
    cases hbreaks with
    | text _ hfeed => exact hfeed
    | spelled hspells => exact absurd hspells hkept.not_spellsList
  · exact .text hkept

theorem breaksLine_of_spellsList (hspells : SpellsList t items) :
    BreaksLine (.text t) ↔ ∃ v ∈ items, BreaksLine v := by
  constructor
  · intro hbreaks
    cases hbreaks with
    | text hkept => exact absurd hspells hkept.not_spellsList
    | @spelled _ others v hothers hv hbreaks =>
        rw [hspells.unique hothers]
        exact ⟨v, hv, hbreaks⟩
  · rintro ⟨v, hv, hbreaks⟩
    exact .spelled hspells hv hbreaks

theorem not_breaksLine_of_form {k : Kind} (hform : t.hasForm k = true) (hliteral : k ≠ .literal)
    (harray : k ≠ .array) (hmatrix : k ≠ .matrix) (hkept : ¬ IsKept t) :
    ¬ BreaksLine (.text t) := by
  intro hbreaks
  cases hbreaks with
  | text h => exact hkept h
  | spelled hspells => exact not_spellsList hform hliteral harray hmatrix hspells

/-! ## Written values -/

theorem lineFeed_not_mem_operatorName (hname : isOperatorName t = true) : '\n' ∉ t := by
  rcases isOperatorName_iff.mp hname with ⟨op, rfl⟩ | rfl
  · cases op with
    | arithmetic operation => cases operation <;> decide
    | compare relation => cases relation <;> decide
    | _ => decide
  · decide

theorem lineFeed_not_mem_ofBool (b : Bool) : '\n' ∉ Text.ofBool b := by
  cases b <;> decide

theorem lineFeed_mem_quoteStripped : '\n' ∈ Text.quoteStripped t ↔ '\n' ∈ t := by
  simp [Text.quoteStripped, Text.quote]

/-- A text that is kept breaks its line if it holds a line feed. -/
theorem kept_lineFeed (hkept : IsKept t) :
    '\n' ∈ Text.quoteStripped t ↔ BreaksLine (.text t) :=
  lineFeed_mem_quoteStripped.trans (breaksLine_of_kept hkept).symm

/-- A numeral that is no number is kept, since it has no other form. -/
theorem isKept_of_isNumeral (hnumeral : Number.isNumeral t = true)
    (hread : Number.read? t = .ok none) : IsKept t := by
  have hother {k : Kind} (hliteral : k ≠ .literal) (hnumber : k ≠ .number) :
      t.hasForm k = false := by
    have hform : t.hasForm .number = true := hnumeral
    exact Bool.eq_false_iff.mpr fun h =>
      hnumber (Text.hasForm_unique h hform hliteral (by decide))
  have hboolean : t.hasForm .boolean = false := hother (by decide) (by decide)
  have hoperator : t.hasForm .operator = false := hother (by decide) (by decide)
  have harray : t.hasForm .array = false := hother (by decide) (by decide)
  have hmatrix : t.hasForm .matrix = false := hother (by decide) (by decide)
  exact ⟨fun _ => hread, hboolean, hoperator, harray, fun h => by cases h.symm.trans hmatrix⟩

theorem numeral_lineFeed {item : Value → Except Fault Text}
    (hnumeral : Number.isNumeral t = true) (hrender : renderText depth item t = .ok w) :
    '\n' ∈ w ↔ BreaksLine (.text t) := by
  rw [renderText, if_pos hnumeral] at hrender
  cases hread : Number.read? t with
  | error fault =>
      rw [hread] at hrender
      cases hrender
  | ok found =>
      rw [hread, ok_bind] at hrender
      cases found with
      | some n =>
          have hbreaks := not_breaksLine_of_form (k := .number) hnumeral (by decide) (by decide)
            (by decide) fun hkept => by
              have hnone := hkept.number hnumeral
              rw [hread] at hnone
              cases hnone
          exact iff_of_false (n.write_lineFeed w hrender) hbreaks
      | none =>
          cases hrender
          exact kept_lineFeed (isKept_of_isNumeral hnumeral hread)

section Items

variable {item : Value → Except Fault Text}
  (hitem : ∀ v w, item v = .ok w → ('\n' ∈ w ↔ BreaksLine v))

include hitem

theorem renderItems_lineFeed (hrender : renderItems item items = .ok w) :
    '\n' ∈ w ↔ ∃ v ∈ items, BreaksLine v := by
  obtain ⟨texts, htexts, rfl⟩ := renderItems_eq_ok hrender
  have hrelated : List.Forall₂ (fun v t => '\n' ∈ t ↔ BreaksLine v) items texts :=
    htexts.imp hitem
  have hmem : '\n' ∈ listText texts ↔ ∃ t ∈ texts, '\n' ∈ t := by
    rw [← Text.mem_join (by decide : '\n' ∉ [',', ' '])]
    simp [listText]
  rw [hmem]
  constructor
  · rintro ⟨t, ht, hfeed⟩
    obtain ⟨v, hv, h⟩ := exists_of_forall₂ hrelated ht
    exact ⟨v, hv, h.mp hfeed⟩
  · rintro ⟨v, hv, hbreaks⟩
    obtain ⟨t, ht, h⟩ := exists_of_forall₂ hrelated.flip hv
    exact ⟨t, ht, h.mpr hbreaks⟩

theorem renderText_lineFeed (hrender : renderText depth item t = .ok w) :
    '\n' ∈ w ↔ BreaksLine (.text t) := by
  by_cases hnumeral : Number.isNumeral t = true
  · exact numeral_lineFeed hnumeral hrender
  by_cases hboolean : Text.isBooleanLiteral t = true
  · rw [renderText, if_neg hnumeral, if_pos hboolean] at hrender
    cases hrender
    have hbreaks := not_breaksLine_of_form (k := .boolean) hboolean (by decide) (by decide)
      (by decide) fun hkept => by cases hboolean.symm.trans hkept.boolean
    exact iff_of_false (lineFeed_not_mem_ofBool _) hbreaks
  by_cases hoperator : isOperatorName t = true
  · rw [renderText, if_neg hnumeral, if_neg hboolean, if_pos hoperator] at hrender
    cases hrender
    have hbreaks := not_breaksLine_of_form (k := .operator) hoperator (by decide) (by decide)
      (by decide) fun hkept => by cases hoperator.symm.trans hkept.operator
    exact iff_of_false (lineFeed_not_mem_operatorName hoperator) hbreaks
  have kept (harray : Text.isArrayLiteral t = false)
      (hmatrix : Text.isMatrixLiteral t = true →
        ∃ depth, Json.readList? depth t = .ok none) : IsKept t :=
    { number := fun h => absurd h hnumeral
      boolean := Bool.eq_false_iff.mpr hboolean
      operator := Bool.eq_false_iff.mpr hoperator
      array := harray
      matrix := hmatrix }
  rw [renderText, if_neg hnumeral, if_neg hboolean, if_neg hoperator] at hrender
  split at hrender
  next harray =>
    cases hread : ArrayText.read depth t with
    | error fault =>
        rw [hread] at hrender
        cases hrender
    | ok items =>
        rw [hread, ok_bind] at hrender
        rw [breaksLine_of_spellsList (.inl ⟨harray, depth, hread⟩)]
        exact renderItems_lineFeed hitem hrender
  next harray =>
    rw [Bool.not_eq_true] at harray
    split at hrender
    next hmatrix =>
      cases hread : Json.readList? depth t with
      | error fault =>
          rw [hread] at hrender
          cases hrender
      | ok found =>
          rw [hread, ok_bind] at hrender
          cases found with
          | some items =>
              rw [breaksLine_of_spellsList (.inr ⟨hmatrix, depth, hread⟩)]
              exact renderItems_lineFeed hitem hrender
          | none =>
              cases hrender
              exact kept_lineFeed (kept harray fun _ => ⟨depth, hread⟩)
    next hmatrix =>
      cases hrender
      exact kept_lineFeed (kept harray fun h => absurd h hmatrix)

end Items

/-- What is shown in full is written on a single line. -/
theorem quoteStripped_inspect_lineFeed
    (hrender : (v.inspect depth).map Text.quoteStripped = .ok w) : '\n' ∉ w := by
  cases hshown : v.inspect depth with
  | error fault =>
      rw [hshown] at hrender
      cases hrender
  | ok shown =>
      rw [hshown] at hrender
      cases hrender
      rw [lineFeed_mem_quoteStripped]
      exact v.inspect_lineFeed depth shown hshown

/-- A value is written on a single line, unless an unescaped text in it breaks the line. -/
theorem render_lineFeed (hrender : v.render depth = .ok w) : '\n' ∈ w ↔ BreaksLine v := by
  induction depth using Nat.strongRecOn generalizing v w with
  | ind depth ih =>
    cases v with
    | bool b =>
        rw [render] at hrender
        cases hrender
        exact iff_of_false (lineFeed_not_mem_ofBool b) fun hbreaks => by cases hbreaks
    | number n =>
        rw [render] at hrender
        exact iff_of_false (n.write_lineFeed w hrender) fun hbreaks => by cases hbreaks
    | list items =>
        -- all that is left takes two calls to write
        rcases depth with _ | _ | depth
        · cases hrender
        · cases hrender
        · rw [breaksLine_list_iff]
          exact renderItems_lineFeed (fun v w => ih depth (by omega)) hrender
    | text t =>
        rcases depth with _ | _ | depth
        · cases hrender
        · cases hrender
        · exact renderText_lineFeed (fun v w => ih depth (by omega)) hrender
    | null =>
        rcases depth with _ | _ | depth
        · cases hrender
        · cases hrender
        · have hwritten := quoteStripped_inspect_lineFeed hrender
          exact iff_of_false hwritten fun hbreaks => by cases hbreaks
    | object fields =>
        rcases depth with _ | _ | depth
        · cases hrender
        · cases hrender
        · have hwritten := quoteStripped_inspect_lineFeed hrender
          exact iff_of_false hwritten fun hbreaks => by cases hbreaks

/-! ## Slots -/

/-- The value is a matrix text, or a list that holds one at any depth. -/
inductive HoldsMatrixText : Value → Prop
  | text {t : Text} (hmatrix : Text.isMatrixLiteral t = true) : HoldsMatrixText (.text t)
  | list {items : List Value} {v : Value} (hv : v ∈ items) (hholds : HoldsMatrixText v) :
      HoldsMatrixText (.list items)

theorem lineFeed_not_mem_of_isUnbroken (ht : Text.IsUnbroken t) : '\n' ∉ t :=
  fun hfeed => absurd (ht '\n' hfeed) (by decide)

theorem isDelimited_of_isMatrixLiteral (hmatrix : Text.isMatrixLiteral t = true) :
    Text.isDelimited '[' ']' t = true := by
  simp only [Text.isMatrixLiteral, Bool.and_eq_true] at hmatrix
  obtain ⟨hopens, hcloses⟩ := hmatrix
  have hfirst : t.head? = some '[' := by
    unfold Text.opensTwice at hopens
    split at hopens
    next => rfl
    next => cases hopens
  have hlast : t.getLast? = some ']' := by
    unfold Text.closesTwice at hcloses
    split at hcloses
    next rest hreverse => rw [List.getLast?_eq_head?_reverse, hreverse, List.head?_cons]
    next => cases hcloses
  simp [Text.isDelimited, hfirst, hlast]

/-- An element of an array text spells no list in turn, and no escape in it is undone. -/
theorem not_breaksLine_of_element (ht : Text.IsUnbroken t)
    (helement : Number.isNumeral t = true ∨ Text.isDelimited '[' ']' t = false) :
    ¬ BreaksLine (.text t) := by
  intro hbreaks
  cases hbreaks with
  | text _ hfeed => exact lineFeed_not_mem_of_isUnbroken ht hfeed
  | spelled hspells =>
      rcases helement with hnumeral | hopen
      · exact not_spellsList (k := .number) hnumeral (by decide) (by decide) (by decide) hspells
      · rcases hspells with ⟨harray, -⟩ | ⟨hmatrix, -⟩
        · simp [Text.isArrayLiteral, hopen] at harray
        · rw [isDelimited_of_isMatrixLiteral hmatrix] at hopen
          cases hopen

/-- An array text without line breaks is written on a single line. -/
theorem not_breaksLine_of_array (ht : Text.IsUnbroken t)
    (harray : ArrayText.read depth t = .ok items) : ∀ v ∈ items, ¬ BreaksLine v :=
  ArrayText.read_yields (fun h hu => hu.subset h.subset) (fun _ => nofun) (fun _ => nofun)
    (fun _ hu helement => not_breaksLine_of_element hu helement)
    (fun items hitems hbreaks => by
      obtain ⟨v, hv, hv'⟩ := breaksLine_list_iff.mp hbreaks
      exact hitems v hv hv')
    depth (ht.subset (Text.inner_sublist t).subset) items harray

theorem IsComposed.holdsMatrixText_of_breaksLine {truths : Prop} (hv : v.IsComposed truths)
    (hbreaks : BreaksLine v) : HoldsMatrixText v := by
  induction hv with
  | text hunbroken =>
      cases hbreaks with
      | text _ hfeed => exact absurd hfeed (lineFeed_not_mem_of_isUnbroken hunbroken)
      | spelled hspells hv hbreaks =>
          rcases hspells with ⟨-, d, hread⟩ | ⟨hmatrix, -⟩
          · exact absurd hbreaks (not_breaksLine_of_array hunbroken hread _ hv)
          · exact .text hmatrix
  | number n => cases hbreaks
  | bool _ b => cases hbreaks
  | list _ ih =>
      obtain ⟨v, hv, hbreaks⟩ := breaksLine_list_iff.mp hbreaks
      exact .list hv (ih v hv hbreaks)

/-- Of all that slots may hold, only what holds a matrix text can take more than one line. -/
theorem IsStorable.holdsMatrixText_of_breaksLine (hv : v.IsStorable) (hbreaks : BreaksLine v) :
    HoldsMatrixText v := by
  cases hv with
  | bool b => cases hbreaks
  | composed hcomposed => exact hcomposed.holdsMatrixText_of_breaksLine hbreaks

end Value

end StackScript
