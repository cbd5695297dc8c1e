import Mathlib.Data.List.Forall2
import StackScript.Proofs.Numeral.Integer
import StackScript.Proofs.Text.Trim
import StackScript.Proofs.Value.Kinds
import StackScript.Value.Render

/-! # Written values

Integers, truth values and lists of these have a written form that depends on nothing but the
value. It neither begins nor ends with a blank, and its first code points tell its kind.
-/

namespace StackScript.Value

/-- Integers that can be written, truth values, and lists of these nested to any depth. -/
inductive IsPlain : Value → Prop
  | int {n : Int} (hshort : Numeral.isTooLong n = false) : IsPlain (.number (.int n))
  | bool (b : Bool) : IsPlain (.bool b)
  | list {items : List Value} (hitems : ∀ v ∈ items, IsPlain v) : IsPlain (.list items)

/-- The text is the written form of the value, if enough depth is left to write it. -/
def Writes (v : Value) (t : Text) : Prop := ∃ depth, v.render depth = .ok t

/-- The written form of a list, given those of its elements. -/
def listText (texts : List Text) : Text := '[' :: Text.join [',', ' '] texts ++ [']']

/-! ## Writing step by step -/

theorem writes_bool {b : Bool} {t : Text} (hwrites : Writes (.bool b) t) : t = Text.ofBool b := by
  obtain ⟨depth, hrender⟩ := hwrites
  simp only [render, Except.ok.injEq] at hrender
  exact hrender.symm

theorem writes_int {n : Int} {t : Text} (hshort : Numeral.isTooLong n = false)
    (hwrites : Writes (.number (.int n)) t) : t = Numeral.ofInt n := by
  obtain ⟨depth, hrender⟩ := hwrites
  simp only [render, Number.write_int hshort, Except.ok.injEq] at hrender
  exact hrender.symm

theorem forall₂_of_mapM_eq_ok {ε α β : Type} {f : α → Except ε β} {items : List α}
    {results : List β} (h : items.mapM f = .ok results) :
    List.Forall₂ (fun a b => f a = .ok b) items results := by
  induction items generalizing results with
  | nil =>
      cases h
      exact .nil
  | cons a rest ih =>
      rw [List.mapM_cons] at h
      cases hhead : f a with
      | error e =>
          rw [hhead] at h
          cases h
      | ok b =>
          cases hrest : rest.mapM f with
          | error e =>
              rw [hhead, hrest] at h
              cases h
          | ok bs =>
              rw [hhead, hrest] at h
              cases h
              exact .cons hhead (ih hrest)

theorem exists_of_forall₂ {α β : Type} {R : α → β → Prop} {items : List α} {others : List β}
    (h : List.Forall₂ R items others) {b : β} (hb : b ∈ others) : ∃ a ∈ items, R a b := by
  induction h with
  | nil => cases hb
  | @cons a b' items others hhead _ ih =>
      rcases List.mem_cons.mp hb with rfl | hb
      · exact ⟨a, List.mem_cons_self, hhead⟩
      · obtain ⟨a', ha', hrelated⟩ := ih hb
        exact ⟨a', List.mem_cons_of_mem a ha', hrelated⟩

theorem renderItems_eq_ok {item : Value → Except Fault Text} {items : List Value} {t : Text}
    (hrender : renderItems item items = .ok t) :
    ∃ texts, List.Forall₂ (fun v t => item v = .ok t) items texts ∧ t = listText texts := by
  unfold renderItems at hrender
  cases htexts : items.mapM item with
  | error fault =>
      rw [htexts] at hrender
      cases hrender
  | ok texts =>
      rw [htexts] at hrender
      cases hrender
      exact ⟨texts, forall₂_of_mapM_eq_ok htexts, rfl⟩

/-- The written form of a value that is no text, number or truth value opens with a bracket or a
quote. -/
theorem opener_of_render {v : Value} {t : Text} {depth : Nat} (htext : ∀ u, v ≠ .text u)
    (hnumber : ∀ n, v ≠ .number n) (hbool : ∀ b, v ≠ .bool b) (hrender : v.render depth = .ok t) :
    ∃ c rest, t = c :: rest ∧ (c = '[' ∨ c = '"') := by
  have hquoted {d : Nat} (hshown : (v.inspect d).map Text.quoteStripped = .ok t) :
      ∃ c rest, t = c :: rest ∧ (c = '[' ∨ c = '"') := by
    cases hinspect : v.inspect d with
    | error fault =>
        rw [hinspect] at hshown
        cases hshown
    | ok shown =>
        rw [hinspect] at hshown
        cases hshown
        exact ⟨_, _, rfl, .inr rfl⟩
  match depth, v with
  | _, .text u => exact absurd rfl (htext u)
  | _, .number n => exact absurd rfl (hnumber n)
  | _, .bool b => exact absurd rfl (hbool b)
  | 0, .list _ | 0, .null | 0, .object _ => cases hrender
  | 1, .list _ | 1, .null | 1, .object _ => cases hrender
  | depth + 2, .list items =>
      obtain ⟨texts, -, rfl⟩ := renderItems_eq_ok hrender
      exact ⟨_, _, rfl, .inl rfl⟩
  | depth + 2, .null => exact hquoted hrender
  | depth + 2, .object fields => exact hquoted hrender

theorem writes_list {items : List Value} {t : Text} (hwrites : Writes (.list items) t) :
    ∃ texts, List.Forall₂ Writes items texts ∧ t = listText texts := by
  obtain ⟨depth, hrender⟩ := hwrites
  match depth with
  | 0 | 1 => cases hrender
  | depth + 2 =>
      rw [render] at hrender
      obtain ⟨texts, htexts, ht⟩ := renderItems_eq_ok hrender
      exact ⟨texts, htexts.imp fun v t h => ⟨depth, h⟩, ht⟩

/-- What holds of plain values and their written forms may be shown by how they are built. -/
theorem IsPlain.writes_induction {motive : Value → Text → Prop}
    (int : ∀ {n}, Numeral.isTooLong n = false →
      motive (.number (.int n)) (Numeral.ofInt n))
    (bool : ∀ b, motive (.bool b) (Text.ofBool b))
    (list : ∀ {items texts},
      List.Forall₂ (fun v t => v.IsPlain ∧ v.Writes t ∧ motive v t) items texts →
      motive (.list items) (listText texts))
    {v : Value} (hplain : v.IsPlain) {t : Text} (hwrites : Writes v t) : motive v t := by
  induction hplain generalizing t with
  | int hshort =>
      rw [writes_int hshort hwrites]
      exact int hshort
  | bool b =>
      rw [writes_bool hwrites]
      exact bool b
  | list hitems ih =>
      obtain ⟨texts, htexts, rfl⟩ := writes_list hwrites
      refine list ((List.forall₂_and_left _ _).mpr ⟨hitems, ?_⟩)
      -- the induction speaks of the items, the texts come from the written form
      have hboth := (List.forall₂_and_left _ _).mpr ⟨fun v hv => @ih v hv, htexts⟩
      exact hboth.imp fun v t h => ⟨h.2, h.1 h.2⟩

/-! ## Ends -/

/-- A text begins and ends like the written form of a plain value. -/
structure HasEnds (v : Value) (t : Text) : Prop where
  first : ∃ c rest, t = c :: rest ∧ ¬ Text.isBlank c ∧ c ≠ ']' ∧ c ≠ '\'' ∧
    (c = '[' ↔ v.isList = true)
  last : ∃ c, t.getLast? = some c ∧ ¬ Text.isBlank c ∧ (v.isList = true → c = ']')

theorem hasEnds_listText (items : List Value) (texts : List Text) :
    HasEnds (.list items) (listText texts) where
  first := ⟨'[', _, rfl, by decide, by decide, by decide, by simp [isList]⟩
  last := by
    refine ⟨']', ?_, by decide, fun _ => rfl⟩
    rw [listText, List.getLast?_concat]

theorem IsPlain.hasEnds {v : Value} {t : Text} (hplain : v.IsPlain) (hwrites : v.Writes t) :
    v.HasEnds t := by
  refine IsPlain.writes_induction ?_ ?_ ?_ hplain hwrites
  · intro n _
    obtain ⟨last, hlast, hdigit⟩ := Numeral.getLast?_ofInt n
    refine ⟨?_, last, hlast, Text.not_isBlank_of_isDigit hdigit, nofun⟩
    cases hfirst : Numeral.ofInt n with
    | nil =>
        rw [hfirst] at hlast
        cases hlast
    | cons c rest =>
        have hc : c ∈ Numeral.ofInt n := hfirst ▸ List.mem_cons_self
        have hne {d : Char} (hd : d.isDigit = false ∧ d ≠ '-') : c ≠ d := by
          rcases Numeral.mem_ofInt hc with hdigit | rfl
          · exact Text.ne_of_isDigit hdigit hd.1
          · exact hd.2.symm
        exact ⟨c, rest, rfl, Numeral.not_isBlank_of_mem_ofInt hc, hne (by decide),
          hne (by decide), fun h => absurd h (hne (by decide)), nofun⟩
  · rintro (_ | _)
    · exact ⟨⟨'f', _, rfl, by decide, by decide, by decide, by decide⟩, 'e', rfl, by decide, nofun⟩
    · exact ⟨⟨'t', _, rfl, by decide, by decide, by decide, by decide⟩, 'e', rfl, by decide, nofun⟩
  · intro items texts _
    exact hasEnds_listText items texts

namespace HasEnds

variable {v : Value} {t : Text}

theorem trim_eq_self (hends : v.HasEnds t) : Text.trim t = t := by
  obtain ⟨first, rest, rfl, hfirst, _⟩ := hends.first
  obtain ⟨last, hlast, hblank, _⟩ := hends.last
  apply Text.trim_eq_self
  · simpa using hfirst
  · simpa [hlast] using hblank

end HasEnds

/-! ## Kinds -/

/-- The brackets that the written form of the list begins with tell what is in it: it is
empty, begins with an element that is no list, or holds nothing but lists. -/
def IsUniform : Value → Prop
  | .list (first :: rest) => first.isList = false ∨ ∀ v ∈ first :: rest, v.isList = true
  | _ => True

theorem kind_ofInt (n : Int) : Text.kind (Numeral.ofInt n) = .number :=
  Text.kind_of_hasForm (Number.isNumeral_ofInt n) (by decide)

theorem kind_ofBool (b : Bool) : Text.kind (Text.ofBool b) = .boolean := by
  cases b <;> decide

/-- A text in square brackets. -/
def bracketed (t : Text) : Text := '[' :: t ++ [']']

theorem isDelimited_bracketed (t : Text) : Text.isDelimited '[' ']' (bracketed t) = true := by
  rw [bracketed, Text.isDelimited, List.getLast?_concat]
  rfl

theorem inner_bracketed (t : Text) : Text.inner (bracketed t) = t := by
  rw [bracketed, List.cons_append, Text.inner, List.tail_cons, List.dropLast_concat]

theorem isDelimited_listText (texts : List Text) :
    Text.isDelimited '[' ']' (listText texts) = true := isDelimited_bracketed _

theorem isNumeral_bracket (rest : Text) : Number.isNumeral ('[' :: rest) = false := by
  rw [Bool.eq_false_iff]
  intro hform
  obtain ⟨c, rest, hc, hgenus⟩ := Text.genus_of_isNumeral hform
  cases hc
  cases hgenus

theorem isNumeral_listText (texts : List Text) : Number.isNumeral (listText texts) = false :=
  isNumeral_bracket _

theorem isBooleanLiteral_bracket (rest : Text) : Text.isBooleanLiteral ('[' :: rest) = false := by
  rw [Bool.eq_false_iff]
  intro hform
  obtain ⟨c, rest, hc, hgenus⟩ := Text.genus_of_isBooleanLiteral hform
  cases hc
  cases hgenus

theorem isBooleanLiteral_listText (texts : List Text) :
    Text.isBooleanLiteral (listText texts) = false := isBooleanLiteral_bracket _

theorem read?_ofBool (b : Bool) : Number.read? (Text.ofBool b) = .ok none := by
  cases b <;> rfl

/-- No double is spelled with a bracket in front. -/
theorem readFloat?_bracket (rest : Text) : Numeral.readFloat? ('[' :: rest) = none := by
  have htrim : Text.trimBy Numeral.isNumeralBlank ('[' :: rest) =
      '[' :: rest.rdropWhile Numeral.isNumeralBlank := by
    have hblank : ¬ Numeral.isNumeralBlank '[' = true := by decide
    have hfront := List.dropWhile_cons_of_neg (l := rest) hblank
    rw [Text.trimBy, hfront]
    exact Text.rdropWhile_append_cons hblank [] rest
  -- nothing takes the bracket away, neither trimming nor dropping underscores
  have hplain : Numeral.plainSpelling? ('[' :: rest) =
      (Numeral.dropUnderscores false
        (Numeral.asciiDigits (rest.rdropWhile Numeral.isNumeralBlank))).map ('[' :: ·) := by
    have hdigit : Text.decimalValue? '[' = none := by decide
    rw [Numeral.plainSpelling?, htrim, Numeral.asciiDigits, List.map_cons, hdigit]
    simp [Numeral.dropUnderscores, Numeral.asciiDigits]
  rw [Numeral.readFloat?, hplain]
  cases Numeral.dropUnderscores false
    (Numeral.asciiDigits (rest.rdropWhile Numeral.isNumeralBlank)) with
  | none => rfl
  | some plain => simp [Numeral.splitSign, Text.lower, Numeral.readLayout?, Numeral.spanDigits]

theorem read?_listText (texts : List Text) : Number.read? (listText texts) = .ok none := by
  have hfeed : Text.dropFinalLineFeed (listText texts) = listText texts := by
    rw [Text.dropFinalLineFeed, listText, List.getLast?_concat]
    rfl
  have hinteger : Number.isIntegerNumeral (listText texts) = false := by
    rw [Number.isIntegerNumeral, hfeed]
    simp [listText]
  have hfloat : Numeral.readFloat? (listText texts) = none := readFloat?_bracket _
  rw [Number.read?, hinteger, hfloat]
  rfl

theorem opensTwice_listText {c : Char} {rest : Text} (texts : List Text) :
    Text.opensTwice (listText ((c :: rest) :: texts)) = (c == '[') := by
  rw [listText, Text.join_cons]
  simp only [List.cons_append, Text.opensTwice]
  split
  next h =>
    cases h
    rfl
  next h =>
    symm
    rw [beq_eq_false_iff_ne]
    rintro rfl
    exact h _ rfl

theorem getLast?_join {texts : List Text} {last : Text} {c : Char} (separator : Text)
    (hlast : texts.getLast? = some last) (hc : last.getLast? = some c) :
    (Text.join separator texts).getLast? = some c := by
  induction texts with
  | nil => cases hlast
  | cons t rest ih =>
      cases rest with
      | nil =>
          cases hlast
          exact hc
      | cons next rest =>
          rw [List.getLast?_cons_cons] at hlast
          rw [Text.join, List.getLast?_append, ih hlast]
          · rfl
          · exact List.cons_ne_nil _ _

/-- Whether two brackets close the written form of a list is up to its last element alone. -/
theorem closesTwice_listText_eq {texts : List Text} {last : Text} {c : Char}
    (hlast : texts.getLast? = some last) (hc : last.getLast? = some c) :
    Text.closesTwice (listText texts) = (c == ']') := by
  have hjoin := getLast?_join [',', ' '] hlast hc
  rw [List.getLast?_eq_head?_reverse] at hjoin
  obtain ⟨rest, hrest⟩ := List.head?_eq_some_iff.mp hjoin
  simp only [Text.closesTwice, listText, List.reverse_append, List.reverse_cons, List.reverse_nil,
    List.nil_append, hrest, List.cons_append]
  split
  next h =>
    cases h
    rfl
  next h =>
    symm
    rw [beq_eq_false_iff_ne]
    rintro rfl
    exact h _ rfl

theorem closesTwice_listText {texts : List Text} (hne : texts ≠ [])
    (hlast : ∀ t ∈ texts, t.getLast? = some ']') : Text.closesTwice (listText texts) = true :=
  closesTwice_listText_eq (List.getLast?_eq_some_getLast hne) (hlast _ (List.getLast_mem hne))

/-- The written form of a plain value has its kind, if it is not one of the lists whose outer
brackets mislead. -/
theorem IsPlain.kind_eq {v : Value} {t : Text} (hplain : v.IsPlain) (huniform : v.IsUniform)
    (hwrites : v.Writes t) : Text.kind t = v.kind := by
  cases hplain with
  | int hshort =>
      rw [writes_int hshort hwrites]
      exact kind_ofInt _
  | bool b =>
      rw [writes_bool hwrites]
      exact kind_ofBool b
  | @list items hitems =>
      obtain ⟨texts, htexts, rfl⟩ := writes_list hwrites
      have hends : List.Forall₂ HasEnds items texts :=
        ((List.forall₂_and_left _ _).mpr ⟨hitems, htexts⟩).imp fun v t h => h.1.hasEnds h.2
      cases hends with
      | nil => decide
      | @cons v t vs ts hhead htail =>
          obtain ⟨c, rest, rfl, _, _, _, hlist⟩ := hhead.first
          -- whether two brackets open the text is up to the first element alone
          obtain hfirst | hall := huniform
          · have hc : (c == '[') = false := by
              rw [beq_eq_false_iff_ne, ne_eq, hlist, hfirst]
              exact Bool.false_ne_true
            have hkind : (Value.list (v :: vs)).kind = .array := by
              simp [kind, isMatrix, hfirst]
            rw [hkind]
            refine Text.kind_of_hasForm ?_ (by decide)
            simp only [Text.hasForm, Text.isArrayLiteral, isDelimited_listText,
              opensTwice_listText, hc, Bool.not_false, Bool.and_self]
          · have hc : c = '[' := hlist.mpr (hall v List.mem_cons_self)
            have hkind : (Value.list (v :: vs)).kind = .matrix := by
              simpa [kind, isMatrix] using hall
            have hlast : ∀ t ∈ (c :: rest) :: ts, t.getLast? = some ']' := by
              intro t ht
              obtain ⟨w, hw, hwt⟩ := exists_of_forall₂ (.cons hhead htail) ht
              obtain ⟨last, hlast, _, hclose⟩ := hwt.last
              rw [hlast, hclose (hall w hw)]
            rw [hkind]
            refine Text.kind_of_hasForm ?_ (by decide)
            simp only [Text.hasForm, Text.isMatrixLiteral, opensTwice_listText, hc,
              beq_self_eq_true, closesTwice_listText (List.cons_ne_nil _ _) (hc ▸ hlast),
              Bool.and_self]

end StackScript.Value
