import StackScript.Proofs.Simulation.Alike
import StackScript.Proofs.Value.Written

/-! # Reading written matrices

The written form of a plain value is a JSON text and gives the value back. What follows it in
a longer text, a comma or a closing bracket, cannot be taken for a part of it.
-/

namespace StackScript.Json

/-- A text that ends a value before it: it is empty, or a comma or a closing bracket comes
first. -/
def Stops (rest : Text) : Prop := ∀ c ∈ rest.head?, c = ',' ∨ c = ']'

theorem mem_of_append_eq_cons {front rest more : Text} {c : Char} (hne : front ≠ [])
    (h : front ++ rest = c :: more) : c ∈ front := by
  cases front with
  | nil => exact absurd rfl hne
  | cons d front =>
      cases h
      exact List.mem_cons_self

/-! ## Numbers -/

theorem spanDigits_append {digits rest : Text} (hdigits : ∀ c ∈ digits, c.isDigit = true)
    (hstops : Stops rest) : Numeral.spanDigits (digits ++ rest) = (digits, rest) := by
  have hrest : rest.takeWhile Char.isDigit = [] ∧ rest.dropWhile Char.isDigit = rest := by
    cases rest with
    | nil => exact ⟨rfl, rfl⟩
    | cons c more =>
        have hc : ¬ c.isDigit = true := by
          rcases hstops c rfl with rfl | rfl <;> decide
        exact ⟨List.takeWhile_cons_of_neg hc, List.dropWhile_cons_of_neg hc⟩
  rw [Numeral.spanDigits, List.takeWhile_append_of_pos hdigits,
    List.dropWhile_append_of_pos hdigits, hrest.1, hrest.2, List.append_nil]

theorem whole?_ofNat {rest : Text} (n : Nat) (hstops : Stops rest) :
    whole? (Numeral.ofNat n ++ rest) = some (Numeral.ofNat n, rest) := by
  have hspan := spanDigits_append (fun c hc => Numeral.isDigit_of_mem_ofNat (n := n) hc) hstops
  obtain rfl | hn := Nat.eq_zero_or_pos n
  · rfl
  · unfold whole?
    split
    next more h =>
      have hfirst : (Numeral.ofNat n).head? = some '0' := by
        rw [← List.head?_append_of_ne_nil _ (Numeral.ofNat_ne_nil n), h, List.head?_cons]
      exact absurd hfirst (Numeral.head?_ofNat_ne_zero hn)
    next =>
      rw [hspan]
      simp [Numeral.ofNat_ne_nil]

theorem fraction_of_stops {rest : Text} (hstops : Stops rest) : fraction rest = ([], rest) := by
  unfold fraction
  split
  next more => rcases hstops '.' rfl with h | h <;> cases h
  next => rfl

theorem exponent?_of_stops {rest : Text} (hstops : Stops rest) : exponent? rest = none := by
  cases rest with
  | nil => rfl
  | cons c more => rcases hstops c rfl with rfl | rfl <;> simp [exponent?]

theorem number_ofInt {n : Int} {rest : Text} (hshort : Numeral.isTooLong n = false)
    (hstops : Stops rest) : number (Numeral.ofInt n ++ rest) = .ok (.ofInt n, rest) := by
  have hlength := Nat.not_lt.mpr (Numeral.length_ofNat_le hshort)
  by_cases hneg : n < 0
  · have hvalue : -(n.natAbs : Int) = n := by omega
    rw [Numeral.ofInt_of_neg hneg, List.cons_append, number]
    simp only [whole?_ofNat _ hstops, fraction_of_stops hstops, exponent?_of_stops hstops,
      List.isEmpty_nil, Bool.not_true, Bool.false_eq_true, if_false, if_true, hlength,
      Numeral.natValue_ofNat, hvalue]
  · have hvalue : (n.natAbs : Int) = n := by omega
    rw [Numeral.ofInt_of_not_neg hneg, number]
    · simp only [whole?_ofNat _ hstops, fraction_of_stops hstops, exponent?_of_stops hstops,
        List.isEmpty_nil, Bool.not_true, Bool.false_eq_true, if_false, hlength,
        Numeral.natValue_ofNat, hvalue]
    · intro more h
      have hfirst := mem_of_append_eq_cons (Numeral.ofNat_ne_nil _) h
      cases Numeral.isDigit_of_mem_ofNat hfirst

/-! ## Values without parts -/

theorem scalar_ofBool (b : Bool) (rest : Text) :
    scalar (Text.ofBool b ++ rest) = .ok (.bool b, rest) := by
  cases b <;> rfl

/-- No word for a value begins like an integer. -/
theorem find?_words_ofInt (n : Int) (rest : Text) :
    words.find? (fun word => word.1.isPrefixOf (Numeral.ofInt n ++ rest)) = none := by
  have hne {c d : Char} (hc : c.isDigit = true) (hd : d.isDigit = false) : (d == c) = false :=
    beq_false_of_ne (Text.ne_of_isDigit hc hd).symm
  cases hdigits : Numeral.ofNat n.natAbs with
  | nil => exact absurd hdigits (Numeral.ofNat_ne_nil _)
  | cons c more =>
      have hc : c.isDigit = true := Numeral.isDigit_of_mem_ofNat (hdigits ▸ List.mem_cons_self)
      by_cases hneg : n < 0
      · rw [Numeral.ofInt_of_neg hneg, hdigits]
        simp [words, List.isPrefixOf, hne hc (d := 'I') rfl]
      · rw [Numeral.ofInt_of_not_neg hneg, hdigits]
        simp [words, List.isPrefixOf, hne hc (d := 'n') rfl, hne hc (d := 't') rfl,
          hne hc (d := 'f') rfl, hne hc (d := 'N') rfl, hne hc (d := 'I') rfl,
          hne hc (d := '-') rfl]

theorem scalar_ofInt {n : Int} {rest : Text} (hshort : Numeral.isTooLong n = false)
    (hstops : Stops rest) : scalar (Numeral.ofInt n ++ rest) = .ok (.ofInt n, rest) := by
  unfold scalar
  split
  next more h =>
    have hfirst := mem_of_append_eq_cons (Numeral.ofInt_ne_nil n) h
    rcases Numeral.mem_ofInt hfirst with h | h <;> cases h
  next => rw [find?_words_ofInt, number_ofInt hshort hstops]

/-! ## Lists -/

theorem skipBlanks_cons {c : Char} (hblank : ¬ Text.isBlank c) (rest : Text) :
    skipBlanks (c :: rest) = c :: rest := by
  have hjson : ¬ isBlank c = true := by
    intro h
    simp only [isBlank, Bool.or_eq_true, beq_iff_eq] at h
    rcases h with ((rfl | rfl) | rfl) | rfl <;> exact hblank (by decide)
  rw [skipBlanks, List.dropWhile_cons_of_neg hjson]

theorem skipBlanks_of_hasEnds {v : Value} {t : Text} (hends : v.HasEnds t) (rest : Text) :
    skipBlanks (t ++ rest) = t ++ rest := by
  obtain ⟨c, more, rfl, hblank, _⟩ := hends.first
  exact skipBlanks_cons hblank _

theorem skipBlanks_join {v : Value} {t : Text} (hends : v.HasEnds t) (texts : List Text)
    (rest : Text) :
    skipBlanks (Text.join [',', ' '] (t :: texts) ++ rest) =
      Text.join [',', ' '] (t :: texts) ++ rest := by
  rw [Text.join_cons, List.append_assoc, skipBlanks_of_hasEnds hends]

/-- The text is read as the value off the front of any text in which it is stopped. -/
def IsReadBack (read : Reader Value) (v : Value) (t : Text) : Prop :=
  ∀ rest, Stops rest → Alike .tooDeep True Eq (read (t ++ rest)) (.ok (v, rest))

/-- Joined texts that are read back are read up to the bracket that closes the list. -/
theorem elements_join {read : Reader Value} {v : Value} {t : Text} {items : List Value}
    {texts : List Text}
    (htexts : List.Forall₂ (fun v t => v.HasEnds t ∧ IsReadBack read v t)
      (v :: items) (t :: texts)) {bound : Nat} (hbound : texts.length < bound) (rest : Text) :
    Alike .tooDeep True Eq
      (elements read bound (Text.join [',', ' '] (t :: texts) ++ ']' :: rest))
      (.ok (v :: items, rest)) := by
  induction texts generalizing v t items bound with
  | nil =>
      obtain ⟨hhead, htail⟩ := List.forall₂_cons.mp htexts
      cases htail
      obtain ⟨bound, rfl⟩ := Nat.exists_eq_succ_of_ne_zero (Nat.ne_of_gt hbound)
      have hstops : Stops (']' :: rest) := by simp [Stops]
      rw [elements, Text.join]
      exact (hhead.2 _ hstops).bind_ok (.refl _)
  | cons next more ih =>
      obtain ⟨hhead, htail⟩ := List.forall₂_cons.mp htexts
      obtain ⟨bound, rfl⟩ := Nat.exists_eq_succ_of_ne_zero (Nat.ne_of_gt (Nat.zero_lt_of_lt hbound))
      cases htail with
      | cons hnext hmore =>
          have hrest := ih (.cons hnext hmore) (Nat.lt_of_succ_lt_succ hbound)
          have hblanks := skipBlanks_join hnext.1 more (']' :: rest)
          have hsplit : Text.join [',', ' '] (t :: next :: more) ++ ']' :: rest =
              t ++ (',' :: ' ' :: (Text.join [',', ' '] (next :: more) ++ ']' :: rest)) := by
            simp [Text.join]
          rw [hsplit, elements]
          -- from here on the other elements are any text that is read alike
          generalize Text.join [',', ' '] (next :: more) ++ ']' :: rest = following at hrest hblanks
          have hstops : Stops (',' :: ' ' :: following) := by simp [Stops]
          apply (hhead.2 _ hstops).bind_ok
          have hcomma : skipBlanks (',' :: ' ' :: following) = ',' :: ' ' :: following := rfl
          have hspace : skipBlanks (' ' :: following) = skipBlanks following := rfl
          simp only [hcomma, hspace, hblanks]
          exact hrest.bind_ok (.refl _)

theorem length_le_length_join {texts : List Text} (hne : ∀ t ∈ texts, t ≠ []) :
    texts.length ≤ (Text.join [',', ' '] texts).length := by
  induction texts with
  | nil => exact Nat.zero_le _
  | cons t rest ih =>
      have hrest := ih fun u hu => hne u (List.mem_cons_of_mem t hu)
      have hpos := List.length_pos_iff.mpr (hne t List.mem_cons_self)
      cases rest with
      | nil => exact hpos
      | cons next more =>
          rw [Text.join]
          · simp only [List.length_append, List.length_cons] at hrest hpos ⊢
            omega
          · exact List.cons_ne_nil _ _

theorem container_listText {read : Reader Value} {items : List Value} {texts : List Text}
    (htexts : List.Forall₂ (fun v t => v.HasEnds t ∧ IsReadBack read v t) items texts)
    (rest : Text) :
    Alike .tooDeep True Eq
      (container read '[' (Text.join [',', ' '] texts ++ ']' :: rest))
      (.ok (.list items, rest)) := by
  have hne : ∀ u ∈ texts, u ≠ [] := by
    intro u hu
    obtain ⟨w, _, hw⟩ := Value.exists_of_forall₂ htexts hu
    obtain ⟨c, more, rfl, _⟩ := hw.1.first
    exact List.cons_ne_nil _ _
  cases htexts with
  | nil => exact .refl _
  | @cons v t vs ts hhead htail =>
      have hlength : ts.length < (Text.join [',', ' '] (t :: ts) ++ ']' :: rest).length := by
        have hjoin := length_le_length_join hne
        simp only [List.length_append, List.length_cons] at hjoin ⊢
        omega
      have helements := elements_join (.cons hhead htail) hlength rest
      obtain ⟨c, more, hfirst, _, hclose, _⟩ := hhead.1.first
      rw [container]
      simp only [skipBlanks_join hhead.1, beq_self_eq_true, if_true]
      split
      next following h =>
        -- no element begins with the bracket that closes an empty list
        rw [Text.join_cons, hfirst] at h
        cases h
        exact absurd rfl hclose
      next => exact helements.map _

/-! ## Plain values -/

theorem value_eq_scalar {c : Char} (hlist : c ≠ '[') (hobject : c ≠ '\x7b') (depth : Nat)
    (rest : Text) : value depth (c :: rest) = scalar (c :: rest) := by
  cases depth <;> simp [value, hlist, hobject]

theorem isReadBack_of_writes {v : Value} {t : Text} (hplain : v.IsPlain) (hwrites : v.Writes t) :
    ∀ depth, IsReadBack (value depth) v t := by
  refine Value.IsPlain.writes_induction
    (motive := fun v t => ∀ depth, IsReadBack (value depth) v t) ?_ ?_ ?_ hplain hwrites
  · intro n hshort depth rest hstops
    have hscalar := scalar_ofInt hshort hstops
    cases htext : Numeral.ofInt n ++ rest with
    | nil => exact absurd (List.append_eq_nil_iff.mp htext).1 (Numeral.ofInt_ne_nil n)
    | cons c more =>
        have hfirst := Numeral.mem_ofInt (mem_of_append_eq_cons (Numeral.ofInt_ne_nil n) htext)
        have hlist : c ≠ '[' := by
          rintro rfl
          rcases hfirst with h | h <;> cases h
        have hobject : c ≠ '\x7b' := by
          rintro rfl
          rcases hfirst with h | h <;> cases h
        rw [value_eq_scalar hlist hobject, ← htext, hscalar]
        exact .refl _
  · intro b depth rest _
    have hvalue : value depth (Text.ofBool b ++ rest) = scalar (Text.ofBool b ++ rest) := by
      cases b <;> exact value_eq_scalar (by decide) (by decide) depth _
    rw [hvalue, scalar_ofBool]
    exact .refl _
  · intro items texts htexts depth rest _
    have hsplit : Value.listText texts ++ rest =
        '[' :: (Text.join [',', ' '] texts ++ ']' :: rest) := by simp [Value.listText]
    cases depth with
    | zero =>
        rw [hsplit]
        exact .first _
    | succ depth =>
        rw [hsplit]
        exact container_listText (htexts.imp fun v t h => ⟨h.1.hasEnds h.2.1, h.2.2 depth⟩) rest

/-- A written list of plain values is read back, unless there is not enough depth. -/
theorem readList?_of_writes {items : List Value} {t : Text} (hplain : (Value.list items).IsPlain)
    (hwrites : (Value.list items).Writes t) (depth : Nat) :
    Alike .tooDeep True Eq (readList? depth t) (.ok (some items)) := by
  have hread : Alike .tooDeep True Eq (read depth t) (.ok (.list items)) := by
    have hvalue := isReadBack_of_writes hplain hwrites depth [] (by simp [Stops])
    have hblanks := skipBlanks_of_hasEnds (hplain.hasEnds hwrites) []
    rw [List.append_nil] at hvalue hblanks
    rw [read, hblanks]
    exact hvalue.bind_ok (.refl _)
  unfold readList?
  generalize read depth t = x at hread ⊢
  cases hread with
  | first => exact .first _
  | ok h =>
      subst h
      exact .refl _

end StackScript.Json
