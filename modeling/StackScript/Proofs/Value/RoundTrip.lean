import StackScript.Proofs.Token.Rejoin
import StackScript.Proofs.Value.Depth
import StackScript.Proofs.Value.Interchange

/-! # Written values read again

A plain value is written as a single token. Classified and read, the token gives the value
back and is written as before, unless its brackets mislead: two of them open the written form
of a list whose first element is a list, but two close it only if the last element is one too.
-/

namespace StackScript

/-! ## Written values as tokens -/

namespace Token

/-- In search of a closing bracket the text is passed over: it closes the brackets that it
opens and no others. -/
def IsPassedOver (t : Text) : Prop :=
  ∀ depth rest, closeLength '[' ']' (depth + 1) (t ++ rest) =
    (closeLength '[' ']' (depth + 1) rest).map (· + t.length)

namespace IsPassedOver

variable {t u : Text}

theorem nil : IsPassedOver [] := by
  intro depth rest
  simp

theorem append (ht : IsPassedOver t) (hu : IsPassedOver u) : IsPassedOver (t ++ u) := by
  intro depth rest
  rw [List.append_assoc, ht, hu, Option.map_map, List.length_append]
  congr 1
  funext n
  simp only [Function.comp_apply]
  omega

theorem of_forall (hbrackets : ∀ c ∈ t, c ≠ '[' ∧ c ≠ ']') : IsPassedOver t := by
  induction t with
  | nil => exact nil
  | cons c rest ih =>
      obtain ⟨hc, hrest⟩ := List.forall_mem_cons.mp hbrackets
      have hhead : IsPassedOver [c] := by
        intro depth more
        simp [closeLength, hc.1, hc.2]
      exact hhead.append (ih hrest)

theorem join {separator : Text} {texts : List Text} (hseparator : IsPassedOver separator)
    (htexts : ∀ t ∈ texts, IsPassedOver t) : IsPassedOver (Text.join separator texts) := by
  induction texts with
  | nil => exact nil
  | cons t rest ih =>
      obtain ⟨hhead, hrest⟩ := List.forall_mem_cons.mp htexts
      cases rest with
      | nil => exact hhead
      | cons next rest =>
          rw [Text.join]
          · exact (hhead.append hseparator).append (ih hrest)
          · exact List.cons_ne_nil _ _

theorem close (ht : IsPassedOver t) (depth : Nat) (rest : Text) :
    closeLength '[' ']' (depth + 1) (t ++ ']' :: rest) =
      (closeLength '[' ']' depth rest).map (· + (t.length + 1)) := by
  rw [ht]
  simp only [closeLength]
  rw [Option.map_map]
  congr 1
  funext n
  simp only [Function.comp_apply]
  omega

theorem brackets (ht : IsPassedOver t) : IsPassedOver ('[' :: t ++ [']']) := by
  intro depth rest
  have hsplit : '[' :: t ++ [']'] ++ rest = '[' :: (t ++ ']' :: rest) := by simp
  rw [hsplit, closeLength]
  simp only [beq_self_eq_true, if_true]
  rw [ht.close, Option.map_map]
  congr 1
  funext n
  simp only [Function.comp_apply, List.length_append, List.length_cons, List.length_nil]
  omega

end IsPassedOver

theorem isPassedOver_of_writes {v : Value} {t : Text} (hplain : v.IsPlain) (hwrites : v.Writes t) :
    IsPassedOver t := by
  refine Value.IsPlain.writes_induction (motive := fun _ t => IsPassedOver t) ?_ ?_ ?_ hplain
    hwrites
  · intro n _
    refine .of_forall fun c hc => ?_
    rcases Numeral.mem_ofInt hc with hdigit | rfl
    · exact ⟨Text.ne_of_isDigit hdigit (by decide), Text.ne_of_isDigit hdigit (by decide)⟩
    · decide
  · rintro (_ | _)
    · exact .of_forall (by simp [Text.ofBool])
    · exact .of_forall (by simp [Text.ofBool])
  · intro items texts htexts
    refine (IsPassedOver.join (.of_forall (by simp)) fun t ht => ?_).brackets
    obtain ⟨v, _, _, _, hpassed⟩ := Value.exists_of_forall₂ htexts ht
    exact hpassed

theorem isWhole_of_writes {v : Value} {t : Text} (hplain : v.IsPlain) (hwrites : v.Writes t) :
    IsWhole t := by
  cases hplain with
  | @int n hshort =>
      rw [Value.writes_int hshort hwrites]
      have hfirst : (Numeral.ofInt n).head? ≠ some '"' := fun hquote => by
        obtain hdigit | h := Numeral.mem_ofInt (List.mem_of_mem_head? hquote)
        · cases hdigit
        · cases h
      refine isWhole_of_word (Numeral.ofInt_ne_nil n) hfirst fun c hc => ?_
      rcases Numeral.mem_ofInt hc with hdigit | rfl
      · exact isWordChar_of_isDigit hdigit
      · rfl
  | bool b =>
      rw [Value.writes_bool hwrites]
      refine isWhole_of_word ?_ ?_ ?_ <;> cases b <;>
        simp [Text.ofBool, isWordChar, isBracket, Text.isBlank]
  | @list items hitems =>
      obtain ⟨texts, htexts, rfl⟩ := Value.writes_list hwrites
      have hpassed : IsPassedOver (Text.join [',', ' '] texts) := by
        refine .join (.of_forall (by simp)) fun t ht => ?_
        obtain ⟨w, hw, hwt⟩ := Value.exists_of_forall₂ htexts ht
        exact isPassedOver_of_writes (hitems w hw) hwt
      refine ⟨'[', Text.join [',', ' '] texts ++ [']'], .array, rfl, by decide, ?_⟩
      refine lexeme?_of_family rfl ?_
      rw [hpassed.close, closeLength]
      simp

/-- The written form of a plain value is read as one token. -/
theorem texts_of_writes {v : Value} {t : Text} (hplain : v.IsPlain) (hwrites : v.Writes t) :
    texts t = [t] :=
  texts_of_isWhole (isWhole_of_writes hplain hwrites)

end Token

/-! ## The written form exists -/

namespace Value

variable {v : Value} {t : Text} {d e : Nat}

theorem render_of_le (hrender : v.render d = .ok t) (hle : d ≤ e) : v.render e = .ok t := by
  have hsame : Alike .tooDeep False Eq (v.render d) (v.render e) := render_alike (.inr hle) v
  rw [hrender] at hsame
  exact hsame.eq_ok_of_ok

theorem exists_mapM_render {items : List Value} (hitems : ∀ v ∈ items, ∃ t, v.Writes t) :
    ∃ depth texts, items.mapM (render depth) = .ok texts := by
  induction items with
  | nil => exact ⟨0, [], rfl⟩
  | cons v rest ih =>
      obtain ⟨⟨t, d, hhead⟩, hrest⟩ := List.forall_mem_cons.mp hitems
      obtain ⟨e, texts, htexts⟩ := ih hrest
      refine ⟨max d e, t :: texts, ?_⟩
      have hmore : rest.mapM (render (max d e)) = .ok texts := by
        have hsame : Alike .tooDeep False Eq (rest.mapM (render e))
            (rest.mapM (render (max d e))) :=
          .mapM fun v _ => render_alike (Or.inr (Nat.le_max_right d e)) v
        rw [htexts] at hsame
        exact hsame.eq_ok_of_ok
      rw [List.mapM_cons, render_of_le hhead (Nat.le_max_left d e), ok_bind, hmore, ok_bind]
      rfl

theorem IsPlain.exists_writes (hplain : v.IsPlain) : ∃ t, v.Writes t := by
  induction hplain with
  | @int n hshort => exact ⟨Numeral.ofInt n, 0, by rw [render, Number.write_int hshort]⟩
  | bool b => exact ⟨Text.ofBool b, 0, by rw [render]⟩
  | @list items hitems ih =>
      obtain ⟨depth, texts, htexts⟩ := exists_mapM_render ih
      refine ⟨listText texts, depth + 2, ?_⟩
      rw [render, renderItems, htexts]
      rfl

/-! ## The kind of a written list -/

/-- A list whose first element is a list and whose last one is not. The written form opens
with two brackets, as that of a matrix does, and closes with one. -/
def IsMisleading : Value → Prop
  | .list items => items.head?.any isList = true ∧ items.getLast?.any isList = false
  | _ => False

theorem not_isOperatorName_bracket (rest : Text) : isOperatorName ('[' :: rest) = false := by
  rw [Bool.eq_false_iff]
  intro hname
  rcases isOperatorName_iff.mp hname with ⟨op, hop⟩ | hword
  · cases op with
    | arithmetic operation => cases operation <;> cases hop
    | compare relation => cases relation <;> cases hop
    | _ => cases hop
  · cases hword

theorem IsPlain.last_of_not_list (hplain : v.IsPlain) (hwrites : v.Writes t)
    (hlist : v.isList = false) : ∃ c, t.getLast? = some c ∧ c ≠ ']' := by
  cases hplain with
  | @int n hshort =>
      rw [writes_int hshort hwrites]
      obtain ⟨c, hc, hdigit⟩ := Numeral.getLast?_ofInt n
      exact ⟨c, hc, Text.ne_of_isDigit hdigit (by decide)⟩
  | bool b =>
      rw [writes_bool hwrites]
      cases b <;> exact ⟨'e', rfl, by decide⟩
  | list => cases hlist

theorem exists_getLast?_of_forall₂ {α β : Type} {R : α → β → Prop} {items : List α}
    {others : List β} (h : List.Forall₂ R items others) {a : α} (ha : items.getLast? = some a) :
    ∃ b, others.getLast? = some b ∧ R a b := by
  induction h with
  | nil => cases ha
  | @cons first other items others hhead htail ih =>
      cases htail with
      | nil =>
          cases ha
          exact ⟨other, rfl, hhead⟩
      | cons =>
          rw [List.getLast?_cons_cons] at ha ⊢
          exact ih ha

variable {items : List Value} {texts : List Text}

theorem opensTwice_of_writes (hitems : ∀ v ∈ items, v.IsPlain)
    (htexts : List.Forall₂ Writes items texts) :
    Text.opensTwice (listText texts) = items.head?.any isList := by
  cases htexts with
  | nil => rfl
  | @cons v t vs ts hhead htail =>
      have hends := (hitems v List.mem_cons_self).hasEnds hhead
      obtain ⟨c, rest, rfl, _, _, _, hlist⟩ := hends.first
      rw [opensTwice_listText, Bool.eq_iff_iff, beq_iff_eq]
      exact hlist

theorem closesTwice_of_writes (hitems : ∀ v ∈ items, v.IsPlain)
    (htexts : List.Forall₂ Writes items texts) :
    Text.closesTwice (listText texts) = items.getLast?.any isList := by
  cases hlast : items.getLast? with
  | none =>
      rw [List.getLast?_eq_none_iff] at hlast
      subst hlast
      cases htexts
      rfl
  | some v =>
      obtain ⟨t, ht, hwrites⟩ := exists_getLast?_of_forall₂ htexts hlast
      have hplain := hitems v (List.mem_of_getLast? hlast)
      rw [Option.any_some]
      cases hlist : v.isList with
      | true =>
          obtain ⟨c, hc, _, hclose⟩ := (hplain.hasEnds hwrites).last
          rw [closesTwice_listText_eq ht hc, hclose hlist]
          rfl
      | false =>
          obtain ⟨c, hc, hne⟩ := hplain.last_of_not_list hwrites hlist
          rw [closesTwice_listText_eq ht hc]
          exact beq_false_of_ne hne

/-- The kind of the written form of a list. -/
theorem kind_listText (hitems : ∀ v ∈ items, v.IsPlain)
    (htexts : List.Forall₂ Writes items texts) :
    Text.kind (listText texts) =
      if items.head?.any isList then
        if items.getLast?.any isList then .matrix else .literal
      else .array := by
  have hopens := opensTwice_of_writes hitems htexts
  have hcloses := closesTwice_of_writes hitems htexts
  split
  next hfirst =>
    split
    next hlast =>
      refine Text.kind_of_hasForm ?_ (by decide)
      simp [Text.hasForm, Text.isMatrixLiteral, hopens, hcloses, hfirst, hlast]
    next hlast =>
      -- the first bracket leaves only arrays and matrices, and the others exclude both
      by_contra hliteral
      have hform := (Text.hasForm_iff hliteral).mpr rfl
      have hoperator : Text.kind (listText texts) ≠ .operator := by
        intro hkind
        rw [hkind, Text.hasForm, listText, List.cons_append, not_isOperatorName_bracket] at hform
        cases hform
      obtain ⟨c, rest, hc, hgenus⟩ := Text.genus_of_hasForm hform hoperator hliteral
      cases hc
      cases hkind : Text.kind (listText texts) <;> rw [hkind] at hgenus <;> cases hgenus
      · rw [hkind, Text.hasForm, Text.isArrayLiteral, hopens, hfirst, Bool.not_true,
          Bool.and_false] at hform
        cases hform
      · rw [hkind, Text.hasForm, Text.isMatrixLiteral, hcloses, Bool.eq_false_iff.mpr hlast,
          Bool.and_false] at hform
        cases hform
  next hfirst =>
    refine Text.kind_of_hasForm ?_ (by decide)
    simp only [Text.hasForm, Text.isArrayLiteral, isDelimited_listText, hopens,
      Bool.eq_false_iff.mpr hfirst, Bool.not_false, Bool.and_self]

/-! ## Read again and written again -/

theorem array_of_writes (hplain : (Value.list items).IsPlain)
    (hwrites : (Value.list items).Writes t) (hdepth : 3 * t.length + 3 ≤ d) :
    ArrayText.read d t = .ok items :=
  (ArrayText.read_of_writes hplain hwrites items d rfl).eq_ok_of_avoids
    (ArrayText.read_avoids hdepth)

theorem matrix_of_writes (hplain : (Value.list items).IsPlain)
    (hwrites : (Value.list items).Writes t) (hdepth : t.length ≤ d) :
    Json.readList? d t = .ok (some items) :=
  (Json.readList?_of_writes hplain hwrites d).eq_ok_of_avoids (Json.readList?_avoids hdepth)

theorem coerce_of_convert {w : Value} {k : Kind} (hconvert : v.convert d k = .ok w) :
    v.coerce d k = .ok w := by
  rw [Value.coerce, hconvert]

/-- The written form, read as what it is classified as, is the value. -/
theorem coerce_kind_of_writes (hplain : v.IsPlain) (hwrites : v.Writes t)
    (hclear : ¬ v.IsMisleading) (hdepth : 3 * t.length + 3 ≤ d) :
    (Value.text t).coerce d (Text.kind t) = .ok v := by
  cases hplain with
  | @int n hshort =>
      rw [writes_int hshort hwrites, kind_ofInt]
      apply coerce_of_convert
      rw [convert, Number.read?_ofInt hshort]
      rfl
  | bool b =>
      rw [writes_bool hwrites, kind_ofBool]
      cases b <;> rfl
  | @list items hitems =>
      have harray := array_of_writes (.list hitems) hwrites hdepth
      have hmatrix := matrix_of_writes (.list hitems) hwrites (d := d) (by omega)
      obtain ⟨texts, htexts, rfl⟩ := writes_list hwrites
      rw [kind_listText hitems htexts]
      split
      next hfirst =>
        have hlast : items.getLast?.any isList = true := by
          rw [← Bool.not_eq_false]
          exact fun h => hclear ⟨hfirst, h⟩
        rw [if_pos hlast]
        apply coerce_of_convert
        rw [convert, hmatrix]
        rfl
      next =>
        apply coerce_of_convert
        rw [convert, harray]
        rfl

/-- The written form, as raw text, is written as the value is. -/
theorem render_text_of_writes (hplain : v.IsPlain) (hwrites : v.Writes t)
    (hclear : ¬ v.IsMisleading) (hdepth : 3 * t.length + 3 ≤ d) :
    (Value.text t).render (d + 2) = v.render (d + 2) := by
  rw [Value.render]
  cases hplain with
  | int hshort =>
      rw [writes_int hshort hwrites, renderText_ofInt hshort, Value.render,
        Number.write_int hshort]
  | bool b =>
      rw [writes_bool hwrites, Value.render]
      cases b <;> rfl
  | @list items hitems =>
      have harray := array_of_writes (.list hitems) hwrites hdepth
      have hmatrix := matrix_of_writes (.list hitems) hwrites (d := d) (by omega)
      obtain ⟨texts, htexts, rfl⟩ := writes_list hwrites
      have hname : isOperatorName (listText texts) = false := not_isOperatorName_bracket _
      have hopens := opensTwice_of_writes hitems htexts
      rw [renderText, isNumeral_listText, isBooleanLiteral_listText, hname, Value.render]
      simp only [Bool.false_eq_true, if_false]
      split
      next => rw [harray, ok_bind]
      next hform =>
        have hfirst : items.head?.any isList = true := by
          rw [← hopens]
          simpa [Text.isArrayLiteral, isDelimited_listText] using hform
        have hlast : items.getLast?.any isList = true := by
          rw [← Bool.not_eq_false]
          exact fun h => hclear ⟨hfirst, h⟩
        have hmatrixform : Text.isMatrixLiteral (listText texts) = true := by
          rw [Text.isMatrixLiteral, hopens, closesTwice_of_writes hitems htexts, hfirst, hlast]
          rfl
        rw [if_pos hmatrixform, hmatrix, ok_bind]

/-- A misleading list is a literal in its written form: it stays a text, and is written with
double quotes around it. -/
theorem literal_of_writes (hplain : v.IsPlain) (hwrites : v.Writes t) (hmisleads : v.IsMisleading) :
    Text.kind t = .literal ∧ (Value.text t).coerce d (Text.kind t) = .ok (.text t) ∧
      (Value.text t).render (d + 2) = .ok (Text.quoteStripped t) := by
  cases hplain with
  | int => exact hmisleads.elim
  | bool => exact hmisleads.elim
  | @list items hitems =>
      obtain ⟨hfirst, hlast⟩ := hmisleads
      obtain ⟨texts, htexts, rfl⟩ := writes_list hwrites
      have hkind : Text.kind (listText texts) = .literal := by
        rw [kind_listText hitems htexts, if_pos hfirst, hlast, if_neg Bool.false_ne_true]
      have hname : isOperatorName (listText texts) = false := not_isOperatorName_bracket _
      have hopens := (opensTwice_of_writes hitems htexts).trans hfirst
      have hcloses := (closesTwice_of_writes hitems htexts).trans hlast
      refine ⟨hkind, by rw [hkind]; rfl, ?_⟩
      rw [Value.render, renderText, isNumeral_listText, isBooleanLiteral_listText, hname,
        Text.isArrayLiteral, Text.isMatrixLiteral, hopens, hcloses, Bool.not_true, Bool.and_false,
        Bool.and_false]
      rfl

/-- A plain value is written as a single token. Reading the token as what it is classified as
gives the value back, and writing it gives the token back, if and only if the value does not
mislead; a value that misleads is classified as a literal. -/
theorem IsPlain.round_trip (hplain : v.IsPlain) :
    ∃ t enough, ∀ depth, enough ≤ depth →
      v.render depth = .ok t ∧ Token.texts t = [t] ∧
      ((Value.text t).coerce depth (Text.kind t) = .ok v ∧ (Value.text t).render depth = .ok t ↔
        ¬ v.IsMisleading) ∧
      (v.IsMisleading → Text.kind t = .literal) := by
  obtain ⟨t, hwrites⟩ := hplain.exists_writes
  obtain ⟨enough, hrender⟩ := id hwrites
  refine ⟨t, enough + (3 * t.length + 3) + 2, fun depth hdepth => ?_⟩
  obtain ⟨depth, rfl⟩ := Nat.exists_eq_add_of_le' (show 2 ≤ depth by omega)
  have hwritten := render_of_le hrender (show enough ≤ depth + 2 by omega)
  refine ⟨hwritten, Token.texts_of_writes hplain hwrites, ⟨?_, fun hclear => ⟨?_, ?_⟩⟩, ?_⟩
  · rintro ⟨hcoerce, -⟩ hmisleads
    -- what stays a text is no list
    rw [(literal_of_writes hplain hwrites hmisleads).2.1] at hcoerce
    cases hcoerce
    exact hmisleads
  · exact coerce_kind_of_writes hplain hwrites hclear (by omega)
  · rw [render_text_of_writes hplain hwrites hclear (by omega), hwritten]
  · exact fun hmisleads => (literal_of_writes (d := 0) hplain hwrites hmisleads).1

/-- Lists at both ends let a matrix be read that has other elements too, and a number at the
end makes a literal. -/
theorem round_trip_mixed :
    (∃ t enough, ∀ depth, enough ≤ depth →
      (list [list [ofInt (-7)], bool true, list []]).render depth = .ok t ∧
      Token.texts t = [t] ∧
      (text t).coerce depth (Text.kind t) = .ok (list [list [ofInt (-7)], bool true, list []]) ∧
      (text t).render depth = .ok t) ∧
    ∃ t enough, ∀ depth, enough ≤ depth →
      (list [list [], ofInt 0]).render depth = .ok t ∧ Text.kind t = .literal := by
  have hmixed : IsPlain (list [list [ofInt (-7)], bool true, list []]) := by
    refine .list fun v hv => ?_
    simp only [List.mem_cons, List.not_mem_nil, or_false] at hv
    rcases hv with rfl | rfl | rfl
    · exact .list (List.forall_mem_singleton.mpr (.int (by decide +kernel)))
    · exact .bool true
    · exact .list (List.forall_mem_nil _)
  have hliteral : IsPlain (list [list [], ofInt 0]) := by
    refine .list fun v hv => ?_
    rcases List.mem_pair.mp hv with rfl | rfl
    · exact .list (List.forall_mem_nil _)
    · exact .int (by decide +kernel)
  constructor
  · obtain ⟨t, enough, h⟩ := IsPlain.round_trip hmixed
    refine ⟨t, enough, fun depth hdepth => ?_⟩
    obtain ⟨hwritten, htoken, hclear, -⟩ := h depth hdepth
    have hagain := hclear.mpr (by simp [IsMisleading, isList])
    exact ⟨hwritten, htoken, hagain.1, hagain.2⟩
  · obtain ⟨t, enough, h⟩ := IsPlain.round_trip hliteral
    refine ⟨t, enough, fun depth hdepth => ?_⟩
    obtain ⟨hwritten, -, -, hkind⟩ := h depth hdepth
    exact ⟨hwritten, hkind ⟨rfl, rfl⟩⟩

end Value

end StackScript
