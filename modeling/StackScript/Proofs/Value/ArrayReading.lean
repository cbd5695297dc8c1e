import StackScript.Proofs.Value.Cutting
import StackScript.Proofs.Value.Depth
import StackScript.Proofs.Value.Written

/-! # Reading arrays

An array text spells a list of integers, truth values, words, and lists in turn. Whatever blanks
stand around the elements, and however their integers and truth values are written, the list is what
the text is read as. The written form of a list of plain values is one of the texts that spell it.
-/

namespace StackScript

/-! ## Letter case -/

namespace Text

variable {t : Text} {c : Char}

theorem mem_lower (hc : c ∈ t) (hsame : lower [c] = [c]) : c ∈ lower t := by
  rw [lower, List.map_singleton, List.cons.injEq] at hsame
  exact List.mem_map.mpr ⟨c, hc, hsame.1⟩

/-- No blank is a letter. -/
theorem lower_of_isBlank (hblank : isBlank c) : lower [c] = [c] := by
  have hkelvin : (c == '\u212a') = false := by
    rw [beq_eq_false_iff_ne]
    rintro rfl
    exact absurd hblank (by decide)
  have hcapital : ¬ (c.val ≥ 'A'.val ∧ c.val ≤ 'Z'.val) := by
    rintro ⟨hfirst, hlast⟩
    have hcapitals : ∀ n < 26, ¬ isBlank (Char.ofNat (65 + n)) := by decide
    have hfirst : 65 ≤ c.toNat := UInt32.le_iff_toNat_le.mp hfirst
    have hlast : c.toNat ≤ 90 := UInt32.le_iff_toNat_le.mp hlast
    have hc := hcapitals (c.toNat - 65) (by omega)
    rw [Nat.add_sub_cancel' hfirst, Char.ofNat_toNat] at hc
    exact hc hblank
  rw [lower, List.map_singleton, hkelvin]
  exact congrArg (fun d => [d]) (dif_neg hcapital)

end Text

namespace ArrayText

open Value (bracketed)

variable {v : Value} {t : Text} {items : List Value}

/-! ## Spelled values -/

/-- A text that stands for itself among the elements of an array. -/
structure IsWord (t : Text) : Prop extends Text.IsTrimmed t where
  unbracketed : IsUnbracketed t
  isNumeral_eq : Number.isNumeral t = false
  isBooleanLiteral_eq : Text.isBooleanLiteral t = false

instance (t : Text) : Decidable (IsWord t) :=
  decidable_of_iff (Text.IsTrimmed t ∧ IsUnbracketed t ∧ Number.isNumeral t = false ∧
    Text.isBooleanLiteral t = false)
    ⟨fun h => ⟨h.1, h.2.1, h.2.2.1, h.2.2.2⟩,
      fun h => ⟨h.toIsTrimmed, h.unbracketed, h.isNumeral_eq, h.isBooleanLiteral_eq⟩⟩

/-- An element of an array text: its value, the text that spells the value, and the blanks around
that text. -/
structure Entry where
  value : Value
  text : Text
  before : Text
  after : Text
  before_blank : before.all Text.isBlank = true
  after_blank : after.all Text.isBlank = true

/-- The element with its blanks, as it stands between commas. -/
def Entry.written (e : Entry) : Text := e.before ++ e.text ++ e.after

/-- The text spells the value: an integer by its digits, a truth value by its word in any letter
case, a word by itself, and a list by what spells its elements, between brackets and commas. -/
inductive Spells : Value → Text → Prop
  | int (negative : Bool) (digits : Text) (hdigits : Numeral.IsConvertible digits) :
      Spells
        (.ofInt (if negative then -(Numeral.natValue digits : Int) else Numeral.natValue digits))
        (Numeral.signed negative digits)
  | bool {b : Bool} {t : Text} (hlower : Text.lower t = Text.ofBool b) : Spells (.bool b) t
  | word {t : Text} (hword : IsWord t) : Spells (.text t) t
  | empty (blanks : Text) (hblanks : blanks.all Text.isBlank = true) :
      Spells (.list []) (bracketed blanks)
  | list (entries : List Entry) (hne : entries ≠ [])
      (hentries : ∀ e ∈ entries, Spells e.value e.text) :
      Spells (.list (entries.map Entry.value))
        (bracketed (Text.join [','] (entries.map Entry.written)))

theorem isBooleanLiteral_of_lower {b : Bool} (hlower : Text.lower t = Text.ofBool b) :
    Text.isBooleanLiteral t = true ∧ Text.isTrue t = b := by
  rw [Text.isBooleanLiteral, Text.isTrue, hlower]
  cases b <;> decide

theorem isTrimmed_of_lower {b : Bool} (hlower : Text.lower t = Text.ofBool b) :
    Text.IsTrimmed t := by
  refine .of_forall ?_ fun c hc hblank => ?_
  · rintro rfl
    cases b <;> cases hlower
  · have hletter := Text.mem_lower hc (Text.lower_of_isBlank hblank)
    rw [hlower] at hletter
    have hletters : (Text.ofBool b).all (!Text.isBlank ·) = true := by cases b <;> decide
    simpa [hblank] using List.all_eq_true.mp hletters c hletter

theorem isUnbracketed_of_lower {b : Bool} (hlower : Text.lower t = Text.ofBool b) :
    IsUnbracketed t := by
  intro c hc
  have hne {d : Char} (hsame : Text.lower [d] = [d])
      (hletters : ∀ b, d ∉ Text.ofBool b) : c ≠ d := by
    rintro rfl
    exact hletters b (hlower ▸ Text.mem_lower hc hsame)
  exact ⟨hne rfl (by decide), hne rfl (by decide), hne rfl (by decide)⟩

theorem mem_signed {digits : Text} (negative : Bool) (hdigits : Numeral.IsDigits digits) :
    ∀ c ∈ Numeral.signed negative digits, (c.isDigit || c == '-') = true := by
  intro c hc
  rw [Bool.or_eq_true, beq_iff_eq]
  cases negative with
  | true => exact (List.mem_cons.mp hc).symm.imp_left (hdigits.isDigit c)
  | false => exact .inl (hdigits.isDigit c hc)

theorem isTrimmed_signed {digits : Text} (negative : Bool) (hdigits : Numeral.IsDigits digits) :
    Text.IsTrimmed (Numeral.signed negative digits) := by
  refine .of_forall ?_ fun c hc => ?_
  · cases negative with
    | true => exact List.cons_ne_nil _ _
    | false => exact hdigits.ne_nil
  · have hmark := mem_signed negative hdigits c hc
    rw [Bool.or_eq_true, beq_iff_eq] at hmark
    rcases hmark with hdigit | rfl
    · exact Text.not_isBlank_of_isDigit hdigit
    · decide

theorem isTrimmed_bracketed (t : Text) : Text.IsTrimmed (bracketed t) where
  ne_nil := List.cons_ne_nil _ _
  first := by
    rintro c ⟨⟩
    decide
  last := by
    intro c hc
    rw [bracketed, List.getLast?_concat] at hc
    cases hc
    decide

/-- Blanks belong to the elements of a list, not to what spells them. -/
theorem Spells.isTrimmed (h : Spells v t) : Text.IsTrimmed t := by
  cases h with
  | int negative digits hdigits => exact isTrimmed_signed negative hdigits.toIsDigits
  | bool hlower => exact isTrimmed_of_lower hlower
  | word hword => exact hword.toIsTrimmed
  | empty => exact isTrimmed_bracketed _
  | list => exact isTrimmed_bracketed _

theorem isCarried_blanks {blanks : Text} (hblanks : blanks.all Text.isBlank = true) (k : Int) :
    IsCarried k blanks :=
  .of_isUnbracketed (isUnbracketed_of_forall (List.all_eq_true.mp hblanks) (by decide)) k

theorem Entry.isCarried (e : Entry) {k : Int} (htext : IsCarried k e.text) :
    IsCarried k e.written :=
  ((isCarried_blanks e.before_blank k).append htext).append (isCarried_blanks e.after_blank k)

/-- Brackets are balanced in what spells a value, and commas stand only within them. -/
theorem Spells.isCarried (h : Spells v t) : ∀ k, 0 ≤ k → IsCarried k t := by
  induction h with
  | int negative digits hdigits =>
      have hplain := isUnbracketed_of_forall (mem_signed negative hdigits.toIsDigits)
      exact fun k _ => .of_isUnbracketed (hplain (by decide)) k
  | bool hlower => exact fun k _ => .of_isUnbracketed (isUnbracketed_of_lower hlower) k
  | word hword => exact fun k _ => .of_isUnbracketed hword.unbracketed k
  | empty blanks hblanks => exact fun k _ => (isCarried_blanks hblanks (k + 1)).brackets
  | list _ _ _ ih =>
      intro k hk
      refine (IsCarried.join hk fun u hu => ?_).brackets
      obtain ⟨e, he, rfl⟩ := List.mem_map.mp hu
      exact e.isCarried (ih e he (k + 1) (by omega))

/-! ## Reading -/

/-- An element is read as its value, given that the lists among the elements are. -/
theorem element_of_spells {array : Text → Except Fault (List Value)} {part : Text}
    (h : Spells v t) (hpart : Text.trim part = t)
    (harray : ∀ items, v = .list items → Alike .tooDeep True Eq (array t) (.ok items)) :
    Alike .tooDeep True Eq (element array part) (.ok v) := by
  have hlist {body : Text} {items : List Value}
      (hbody : Alike .tooDeep True Eq (array (bracketed body)) (.ok items))
      (hpart : Text.trim part = bracketed body) :
      Alike .tooDeep True Eq (element array part) (.ok (.list items)) := by
    have hnumeral : Number.isNumeral (bracketed body) = false := Value.isNumeral_bracket _
    have hboolean : Text.isBooleanLiteral (bracketed body) = false :=
      Value.isBooleanLiteral_bracket _
    simp only [element, hpart, hnumeral, hboolean, Value.isDelimited_bracketed, Bool.false_eq_true,
      if_false, if_true]
    exact hbody.bind_ok (.refl _)
  cases h with
  | int negative digits hdigits =>
      simp only [element, hpart, Number.isNumeral_signed negative hdigits.toIsDigits, if_true,
        Number.read?_signed negative hdigits.toIsDigits hdigits.length_le]
      exact .refl _
  | bool hlower =>
      obtain ⟨hboolean, htrue⟩ := isBooleanLiteral_of_lower hlower
      have hnumeral : Number.isNumeral t = false := Bool.eq_false_iff.mpr fun hform => by
        have hsame : Kind.number = .boolean :=
          Text.hasForm_unique (t := t) hform hboolean (by decide) (by decide)
        cases hsame
      simp only [element, hpart, hnumeral, hboolean, htrue, Bool.false_eq_true, if_false, if_true]
      exact .refl _
  | word hword =>
      have hdelimited : Text.isDelimited '[' ']' t = false := Bool.eq_false_iff.mpr fun hform => by
        obtain ⟨rest, rfl⟩ := Text.genus_of_isDelimited hform
        exact (hword.unbracketed '[' List.mem_cons_self).1 rfl
      simp only [element, hpart, hword.isNumeral_eq, hword.isBooleanLiteral_eq, hdelimited,
        Bool.false_eq_true, if_false]
      exact .refl _
  | empty => exact hlist (harray _ rfl) hpart
  | list => exact hlist (harray _ rfl) hpart

theorem mapM_ok {ε α : Type} (items : List α) :
    items.mapM (Except.ok : α → Except ε α) = .ok items := by
  have h := List.mapM_pure (m := Except ε) (l := items) (f := id)
  rwa [List.map_id] at h

/-- What spells a list is read as that list, unless there is not enough depth. -/
theorem read_of_spells (h : Spells v t) :
    ∀ items depth, v = .list items → Alike .tooDeep True Eq (read depth t) (.ok items) := by
  induction h with
  | int => nofun
  | bool => nofun
  | word => nofun
  | empty blanks hblanks =>
      rintro _ depth ⟨⟩
      match depth with
      | 0 | 1 | 2 => exact .first _
      | depth + 3 =>
          rw [read, Value.inner_bracketed, Text.trim_blanks (List.all_eq_true.mp hblanks)]
          exact .refl _
  | list entries hne hentries ih =>
      rintro _ depth ⟨⟩
      -- each list takes three calls, and its elements have those that are left
      match depth with
      | 0 | 1 | 2 => exact .first _
      | depth + 3 =>
          have hcarried : ∀ u ∈ entries.map Entry.written, IsCarried 0 u := by
            intro u hu
            obtain ⟨e, he, rfl⟩ := List.mem_map.mp hu
            exact e.isCarried ((hentries e he).isCarried 0 (Int.le_refl 0))
          have hsome : (Text.trim (Text.join [','] (entries.map Entry.written))).isEmpty = false := by
            obtain ⟨e, rest, rfl⟩ := List.exists_cons_of_ne_nil hne
            obtain ⟨c, hc, hblank⟩ := (hentries e List.mem_cons_self).isTrimmed.exists_not_isBlank
            rw [List.isEmpty_eq_false_iff]
            refine Text.trim_ne_nil (c := c) ?_ hblank
            rw [List.map_cons, Text.join_cons, Entry.written]
            simp [hc]
          rw [read, Value.inner_bracketed, hsome, if_neg Bool.false_ne_true,
            splitTopLevel_join (by simpa using hne) hcarried, ← mapM_ok (entries.map Entry.value)]
          refine .mapM_related ?_
          rw [List.forall₂_map_left_iff, List.forall₂_map_right_iff, List.forall₂_same]
          intro e he
          have hpart : Text.trim e.written = e.text :=
            (Text.trim_padded (List.all_eq_true.mp e.before_blank)
              (List.all_eq_true.mp e.after_blank) e.text).trans
                (hentries e he).isTrimmed.trim_eq_self
          exact element_of_spells (hentries e he) hpart fun items hitems => ih e he items depth hitems

/-- Where enough depth is left, an array text is converted to the list that it spells, and with any
depth it is converted to no other value. -/
theorem coerce_spelled (h : Spells (.list items) t) :
    (∀ depth, (Value.text t).coerce depth .array = .error .tooDeep ∨
      (Value.text t).coerce depth .array = .ok (.list items)) ∧
    ∀ depth, 3 * t.length + 3 ≤ depth →
      (Value.text t).coerce depth .array = .ok (.list items) := by
  have hread (depth : Nat) := read_of_spells h items depth rfl
  have hcoerce {depth : Nat} (hok : read depth t = .ok items) :
      (Value.text t).coerce depth .array = .ok (.list items) := by
    rw [Value.coerce, Value.convert, hok]
    rfl
  refine ⟨fun depth => ?_, fun depth hdepth => ?_⟩
  · by_cases hcut : read depth t = .error .tooDeep
    · left
      rw [Value.coerce, Value.convert, hcut]
      rfl
    · exact .inr (hcoerce ((hread depth).eq_ok_of_avoids hcut))
  · exact hcoerce ((hread depth).eq_ok_of_avoids (read_avoids hdepth))

/-- Blanks, leading zeros and capitals do not matter, and a word may look like a string or an
operator. -/
theorem coerce_spelled_padded :
    let t := "[ -07 ,\t[ ],tRuE,[ + ,\"1\"\n]]".toList
    let tree : Value :=
      .list [.ofInt (-7), .list [], .bool true, .list [.text ['+'], .text "\"1\"".toList]]
    Spells tree t ∧ (Value.text t).coerce 100 .array = .ok tree := by
  intro t tree
  have hwords : Spells (.list [.text ['+'], .text "\"1\"".toList]) "[ + ,\"1\"\n]".toList := by
    refine .list
      [⟨.text ['+'], ['+'], [' '], [' '], by decide, by decide⟩,
        ⟨.text "\"1\"".toList, "\"1\"".toList, [], ['\n'], by decide, by decide⟩]
      (List.cons_ne_nil _ _) ?_
    simp only [List.forall_mem_cons]
    exact ⟨.word (by decide), .word (by decide), List.forall_mem_nil _⟩
  have htree : Spells tree t := by
    refine .list
      [⟨.ofInt (-7), "-07".toList, [' '], [' '], by decide, by decide⟩,
        ⟨.list [], "[ ]".toList, ['\t'], [], by decide, by decide⟩,
        ⟨.bool true, "tRuE".toList, [], [], by decide, by decide⟩,
        ⟨_, "[ + ,\"1\"\n]".toList, [], [], by decide, by decide⟩]
      (List.cons_ne_nil _ _) ?_
    simp only [List.forall_mem_cons]
    exact ⟨.int true "07".toList (by decide), .empty [' '] (by decide), .bool (by decide), hwords,
      List.forall_mem_nil _⟩
  exact ⟨htree, (coerce_spelled htree).2 100 (by decide)⟩

/-! ## Written lists -/

theorem exists_entries {texts : List Text} (h : List.Forall₂ Spells items texts) :
    ∃ entries : List Entry, entries.map Entry.value = items ∧
      entries.map Entry.written = texts.map (' ' :: ·) ∧
      ∀ e ∈ entries, Spells e.value e.text := by
  induction h with
  | nil => exact ⟨[], rfl, rfl, List.forall_mem_nil _⟩
  | @cons v t vs ts hhead _ ih =>
      obtain ⟨entries, rfl, hwritten, hspells⟩ := ih
      refine ⟨⟨v, t, [' '], [], by decide, by decide⟩ :: entries, rfl, ?_,
        List.forall_mem_cons.mpr ⟨hhead, hspells⟩⟩
      simp [hwritten, Entry.written]

/-- The written form of a list has a blank behind each comma. -/
theorem spells_listText {texts : List Text} (h : List.Forall₂ Spells items texts) :
    Spells (.list items) (Value.listText texts) := by
  cases h with
  | nil => exact .empty [] rfl
  | @cons v t vs ts hhead htail =>
      obtain ⟨entries, rfl, hwritten, hspells⟩ := exists_entries htail
      have hlist := Spells.list (⟨v, t, [], [], by decide, by decide⟩ :: entries)
        (List.cons_ne_nil _ _) (List.forall_mem_cons.mpr ⟨hhead, hspells⟩)
      have hjoin : Text.join [','] ((t ++ []) :: ts.map (' ' :: ·)) =
          Text.join [',', ' '] (t :: ts) := by
        simp [Text.join_cons, List.flatMap_map]
      rw [List.map_cons, List.map_cons, hwritten, Entry.written, List.nil_append, hjoin] at hlist
      exact hlist

theorem spells_of_writes (hplain : v.IsPlain) (hwrites : v.Writes t) : Spells v t := by
  refine Value.IsPlain.writes_induction (motive := Spells) ?_ ?_ ?_ hplain hwrites
  · intro n hshort
    have hdigits := Numeral.IsConvertible.mk (Numeral.isDigits_ofNat _)
      (Numeral.length_ofNat_le hshort)
    have hspells := Spells.int (decide (n < 0)) _ hdigits
    rwa [← Numeral.intValue_signed _ hdigits.toIsDigits, ← Numeral.ofInt_eq_signed,
      Numeral.intValue_ofInt] at hspells
  · intro b
    refine .bool ?_
    cases b <;> rfl
  · exact fun h => spells_listText (h.imp fun v t h => h.2.2)

/-- A written list of plain values is read back, unless there is not enough depth. -/
theorem read_of_writes (hplain : v.IsPlain) (hwrites : v.Writes t) :
    ∀ items depth, v = .list items → Alike .tooDeep True Eq (read depth t) (.ok items) :=
  read_of_spells (spells_of_writes hplain hwrites)

end ArrayText

end StackScript
