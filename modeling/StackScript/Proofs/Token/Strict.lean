import StackScript.Proofs.Token.Reading

/-! # Strict and lenient reading

The strict reading stops at the first bracket outside of all tokens. Up to there it reads what
the lenient one reads. A bracket outside of all tokens has no part in how any token is read: if
blanks stand in the places of all of them, the tokens are the same, and the strict reading comes
to the end of the source.
-/

namespace StackScript.Token

/-- At the position stands a bracket outside of the tokens. -/
def IsLoose (source : Text) (tokens : List Token) (i : Nat) : Prop :=
  source[i]?.any isBracket = true ∧ ∀ t ∈ tokens, ¬ t.Covers i

instance (source : Text) (tokens : List Token) (i : Nat) : Decidable (IsLoose source tokens i) :=
  inferInstanceAs (Decidable (_ ∧ _))

/-- The source with blanks in the places of all brackets outside of its tokens. -/
def blankLoose (source : Text) : Text :=
  source.mapIdx fun i c => if IsLoose source (read source) i then ' ' else c

example : blankLoose "\x7ba [b] ] \x7bc [\x7d".toList = " a [b]   \x7bc [\x7d".toList := by
  decide +kernel

section Loose

variable {source : Text} {tokens : List Token} {i : Nat} {c : Char}

theorem isLoose_iff (hc : source[i]? = some c) :
    IsLoose source tokens i ↔ isBracket c ∧ ∀ t ∈ tokens, ¬ t.Covers i := by
  simp [IsLoose, hc]

theorem isLoose_cons {t : Token} :
    IsLoose source (t :: tokens) i ↔ ¬ t.Covers i ∧ IsLoose source tokens i := by
  simp only [IsLoose, List.forall_mem_cons]
  tauto

theorem isBracket_of_isBlank (hblank : Text.isBlank c) : isBracket c = false := by
  rw [Bool.eq_false_iff]
  intro hbracket
  simp only [isBracket, Bool.or_eq_true, beq_iff_eq] at hbracket
  rcases hbracket with ((rfl | rfl) | rfl) | rfl <;> exact absurd hblank (by decide)

end Loose

/-! ## Where the strict reading stops -/

/-- What a strict reading finds from a position on: all tokens if no bracket is loose there, and
else the tokens before the first one that is. -/
def EndsAtLoose (source : Text) (tokens : List Token) (start : Nat)
    (found : List Token × Option Misplaced) : Prop :=
  (found = (tokens, none) ∧ ∀ i, start ≤ i → ¬ IsLoose source tokens i) ∨
    ∃ i c, start ≤ i ∧ source[i]? = some c ∧ IsLoose source tokens i ∧
      (∀ j, start ≤ j → j < i → ¬ IsLoose source tokens j) ∧
      found = (tokens.filter (·.stop ≤ i), some (misplaced c i (source.drop (i + 1))))

namespace EndsAtLoose

variable {source : Text} {tokens : List Token} {start : Nat} {found : List Token × Option Misplaced}

theorem nil (hlength : source.length ≤ start) : EndsAtLoose source [] start ([], none) := by
  refine Or.inl ⟨rfl, fun i hi hloose => ?_⟩
  rw [IsLoose, List.getElem?_eq_none (by omega)] at hloose
  exact Bool.false_ne_true hloose.1

theorem skip (hfirst : ¬ IsLoose source tokens start)
    (hrest : EndsAtLoose source tokens (start + 1) found) :
    EndsAtLoose source tokens start found := by
  have hstart (j : Nat) (hj : start ≤ j) (hloose : start + 1 ≤ j → ¬ IsLoose source tokens j) :
      ¬ IsLoose source tokens j := by
    rcases Nat.eq_or_lt_of_le hj with rfl | hj
    · exact hfirst
    · exact hloose hj
  rcases hrest with ⟨hall, hnone⟩ | ⟨i, c, hi, hc, hloose, hbefore, hfound⟩
  · exact Or.inl ⟨hall, fun j hj => hstart j hj (hnone j)⟩
  · refine Or.inr ⟨i, c, by omega, hc, hloose, fun j hj hji => ?_, hfound⟩
    exact hstart j hj fun hj => hbefore j hj hji

theorem cons {token : Token} (hrest : EndsAtLoose source tokens token.stop found) :
    EndsAtLoose source (token :: tokens) token.start (token :: found.1, found.2) := by
  have hstop : token.start ≤ token.stop := Nat.le_add_right _ _
  have hbehind (j : Nat) (hj : token.start ≤ j) :
      IsLoose source (token :: tokens) j ↔ token.stop ≤ j ∧ IsLoose source tokens j := by
    rw [isLoose_cons, Covers]
    exact and_congr_left fun _ => by omega
  rcases hrest with ⟨rfl, hnone⟩ | ⟨i, c, hi, hc, hloose, hbefore, rfl⟩
  · refine Or.inl ⟨rfl, fun j hj hloose => ?_⟩
    obtain ⟨hlow, hloose⟩ := (hbehind j hj).mp hloose
    exact hnone j hlow hloose
  · refine Or.inr ⟨i, c, hstop.trans hi, hc, (hbehind i (hstop.trans hi)).mpr ⟨hi, hloose⟩,
      fun j hj hji hloose => ?_, ?_⟩
    · obtain ⟨hlow, hloose⟩ := (hbehind j hj).mp hloose
      exact hbefore j hlow hji hloose
    · rw [List.filter_cons_of_pos (by simpa using hi)]

/-- A bracket in front of all tokens is the first loose one. -/
theorem bracket {c : Char} (hc : source[start]? = some c) (hbracket : isBracket c)
    (hbehind : ∀ t ∈ tokens, start < t.start) :
    EndsAtLoose source tokens start
      ([], some (misplaced c start (source.drop (start + 1)))) := by
  refine Or.inr ⟨start, c, Nat.le_refl start, hc, ?_, fun j hj hji => absurd hji (by omega), ?_⟩
  · rw [isLoose_iff hc]
    exact ⟨hbracket, fun t ht hcovers => absurd hcovers.1 (Nat.not_le_of_lt (hbehind t ht))⟩
  · have hnone : tokens.filter (·.stop ≤ start) = [] := by
      rw [List.filter_eq_nil_iff]
      intro t ht
      have hstop : t.start ≤ t.stop := Nat.le_add_right _ _
      have hlow := hbehind t ht
      simp only [decide_eq_true_eq]
      omega
    rw [hnone]

end EndsAtLoose

theorem untilMisplaced_ofText {source t : Text} {start : Nat} (hsource : source.drop start = t)
    {tokens : List Token} (hreading : IsReading source start tokens) :
    EndsAtLoose source tokens start (untilMisplaced (Piece.ofText start t)) := by
  fun_induction Piece.ofText start t generalizing tokens with
  | case1 start =>
      have hlength := List.drop_eq_nil_iff.mp hsource
      obtain rfl := (isReading_of_length_le hlength).mp hreading
      exact .nil hlength
  | case2 start c rest hblank ih =>
      have hrest := ih (drop_succ_of_drop hsource) ((isReading_blank hsource hblank).mp hreading)
      refine hrest.skip ?_
      rw [isLoose_iff (getElem?_of_drop hsource), isBracket_of_isBlank hblank]
      simp
  | case3 start c rest hblank kind n hlexeme ih =>
      obtain ⟨more, rfl, hmore⟩ := (isReading_token hsource hblank hlexeme).mp hreading
      have hrest := ih (drop_of_drop hsource n) hmore
      exact EndsAtLoose.cons ((stop_lexeme start hlexeme).symm ▸ hrest)
  | case4 start c rest hblank hlexeme ih =>
      have hmore := (isReading_bracket hsource hlexeme).mp hreading
      rw [untilMisplaced, ← drop_succ_of_drop hsource]
      exact .bracket (getElem?_of_drop hsource) (lexeme?_eq_none hlexeme).1 hmore.start_le

/-- The first loose bracket of a source ends its strict reading; if there is none, the strict
reading is the lenient one. -/
theorem readStrict_eq (source : Text) :
    (readStrict source = (read source, none) ∧ ∀ i, ¬ IsLoose source (read source) i) ∨
    ∃ i c, source[i]? = some c ∧ IsLoose source (read source) i ∧
      (∀ j < i, ¬ IsLoose source (read source) j) ∧
      readStrict source =
        ((read source).filter (·.stop ≤ i), some (misplaced c i (source.drop (i + 1)))) := by
  have hstrict := untilMisplaced_ofText List.drop_zero (isReading_read source)
  simpa only [EndsAtLoose, readStrict, Nat.zero_le, true_and, forall_const] using hstrict

theorem misplaced_eq {source : Text} {i : Nat} {c : Char} (hc : source[i]? = some c) :
    misplaced c i (source.drop (i + 1)) =
      if (family? c).isSome then ⟨.unbalanced c, i, source.length, source.drop i⟩
      else ⟨.unmatched c, i, i + 1, [c]⟩ := by
  obtain ⟨hi, rfl⟩ := List.getElem?_eq_some_iff.mp hc
  have hlength : i + 1 + (source.drop (i + 1)).length = source.length := by
    rw [List.length_drop]
    omega
  cases hfamily : family? source[i] with
  | none => simp [misplaced, hfamily]
  | some family =>
      simp only [misplaced, hfamily, hlength, Option.isSome_some, if_true]
      rw [List.drop_eq_getElem_cons hi]

/-! ## Blanks for loose brackets -/

section Blanked

variable {source : Text} {i : Nat} {c : Char}

theorem getElem?_blankLoose (source : Text) (i : Nat) :
    (blankLoose source)[i]? =
      source[i]?.map fun c => if IsLoose source (read source) i then ' ' else c := by
  rw [blankLoose, List.getElem?_mapIdx]

theorem getElem?_blankLoose_of_not_isLoose (hloose : ¬ IsLoose source (read source) i) :
    (blankLoose source)[i]? = source[i]? := by
  simp [getElem?_blankLoose, hloose]

/-- A code point that is no blank was there before. -/
theorem getElem?_of_blankLoose (hc : (blankLoose source)[i]? = some c) :
    c = ' ' ∨ source[i]? = some c ∧ ¬ IsLoose source (read source) i := by
  rw [getElem?_blankLoose, Option.map_eq_some_iff] at hc
  obtain ⟨d, hd, hc⟩ := hc
  split at hc
  next => exact Or.inl hc.symm
  next hloose => exact Or.inr ⟨hc ▸ hd, hloose⟩

theorem blankLoose_eq_self_iff :
    blankLoose source = source ↔ ∀ i, ¬ IsLoose source (read source) i := by
  constructor
  · intro hsame i hloose
    have hspace := getElem?_blankLoose source i
    have hbracket := hloose.1
    rw [hsame] at hspace
    cases hc : source[i]? with
    | none => simp [hc] at hbracket
    | some c =>
        simp only [hc, hloose, Option.map_some, if_true, Option.some.injEq] at hspace
        rw [hc, hspace] at hbracket
        exact absurd hbracket (by decide)
  · intro hnone
    apply List.ext_getElem?
    intro i
    exact getElem?_blankLoose_of_not_isLoose (hnone i)

theorem not_isLoose_of_covers {t : Token} (ht : t ∈ read source) (hcovers : t.Covers i) :
    ¬ IsLoose source (read source) i := fun hloose => hloose.2 t ht hcovers

theorem extract_congr {source other : Text} {start stop : Nat}
    (hsame : ∀ i, start ≤ i → i < stop → other[i]? = source[i]?) :
    other.extract start stop = source.extract start stop := by
  apply List.ext_getElem?
  intro k
  simp only [List.extract_eq_take_drop, List.getElem?_take, List.getElem?_drop]
  split
  · exact hsame _ (by omega) (by omega)
  · rfl

/-- A token stands wherever the source is the same within it, does not go on as a word behind
it, and has no further double quotes. -/
theorem StandsIn.congr {source other : Text} {t : Token} (hstands : t.StandsIn source)
    (hwithin : ∀ i, t.Covers i → other[i]? = source[i]?)
    (hbehind : ∀ c, other[t.stop]? = some c → Text.isBlank c ∨ source[t.stop]? = some c)
    (hquotes : ∀ i : Nat, other[i]? = some '"' → source[i]? = some '"') : t.StandsIn other := by
  obtain ⟨hnonempty, htext, hdescribed⟩ := hstands
  have hextract (stop : Nat) (hstop : stop ≤ t.stop) :
      other.extract t.start stop = source.extract t.start stop :=
    extract_congr fun i hlow hhigh => hwithin i ⟨hlow, by omega⟩
  have hall := hextract t.stop (Nat.le_refl _)
  have hfirst := hwithin t.start ⟨Nat.le_refl _, hnonempty⟩
  have hbracketed {opener closer : Char}
      (h : IsBracketed opener closer source t.start t.stop) :
      IsBracketed opener closer other t.start t.stop := by
    refine ⟨hfirst.trans h.opens, hall ▸ h.balanced, fun earlier hlow hhigh => ?_⟩
    rw [hextract earlier (by omega)]
    exact h.shortest earlier hlow hhigh
  refine ⟨hnonempty, hall ▸ htext, ?_⟩
  revert hdescribed
  cases t.kind with
  | block => exact hbracketed
  | array => exact hbracketed
  | string =>
      rintro ⟨content, hcontent, hquoted⟩
      exact ⟨content, hcontent, hall.trans hquoted⟩
  | word =>
      rintro ⟨hchars, hends, hunclosed⟩
      refine ⟨hall ▸ hchars, fun c hc => ?_, fun hopens hmem => ?_⟩
      · exact (hbehind c hc).elim Or.inl (hends c)
      · obtain ⟨k, hk⟩ := List.mem_iff_getElem?.mp hmem
        rw [List.getElem?_drop] at hk
        refine hunclosed (hfirst.symm.trans hopens) (List.mem_iff_getElem?.mpr ⟨k, ?_⟩)
        rw [List.getElem?_drop]
        exact hquotes _ hk

/-- No bracket is left outside of all tokens: it would have been loose. -/
theorem not_isBracket_of_blankLoose (hc : (blankLoose source)[i]? = some c)
    (huncovered : ∀ t ∈ read source, ¬ t.Covers i) : ¬ isBracket c := by
  rcases getElem?_of_blankLoose hc with rfl | ⟨hc, hloose⟩
  · decide
  · exact fun hbracket => hloose ((isLoose_iff hc).mpr ⟨hbracket, huncovered⟩)

/-- Blanks in the places of the loose brackets change nothing of what is read. -/
theorem isReading_blankLoose (source : Text) : IsReading (blankLoose source) 0 (read source) := by
  have hreading := isReading_read source
  refine ⟨hreading.start_le, hreading.ordered, fun t ht => ?_, fun i c hi hc huncovered => ?_,
    fun i opener closer kind hi hc hfamily huncovered => ?_⟩
  · refine (hreading.stands t ht).congr (fun i hcovers => ?_) (fun c hc => ?_) fun i hc => ?_
    · exact getElem?_blankLoose_of_not_isLoose (not_isLoose_of_covers ht hcovers)
    · rcases getElem?_of_blankLoose hc with rfl | h
      · exact Or.inl (by decide)
      · exact Or.inr h.1
    · exact (getElem?_of_blankLoose hc).elim (fun h => absurd h (by decide)) And.left
  · rcases getElem?_of_blankLoose hc with rfl | h
    · exact Or.inl (by decide)
    · exact hreading.outside i c hi h.1 huncovered
  · refine absurd ?_ (not_isBracket_of_blankLoose hc huncovered)
    rcases family?_eq_some_iff.mp hfamily with ⟨rfl, -, -⟩ | ⟨rfl, -, -⟩ <;> rfl

theorem read_blankLoose (source : Text) : read (blankLoose source) = read source :=
  (isReading_iff.mp (isReading_blankLoose source)).symm

end Blanked

theorem not_isLoose_blankLoose (source : Text) (i : Nat) :
    ¬ IsLoose (blankLoose source) (read (blankLoose source)) i := by
  rw [read_blankLoose]
  intro hloose
  cases hc : (blankLoose source)[i]? with
  | none => simp [IsLoose, hc] at hloose
  | some c =>
      obtain ⟨hbracket, huncovered⟩ := (isLoose_iff hc).mp hloose
      exact not_isBracket_of_blankLoose hc huncovered hbracket

/-- With blanks in the places of its loose brackets, a source is read strictly to its end, and
to the tokens of its lenient reading. Read strictly as it is, it comes to its end exactly if it
has no loose brackets, and then to the same tokens. Otherwise the strict reading gives the
tokens that end at or before the first loose bracket and stops there: at an opener it reports
the rest of the source, at a closer that closer alone. -/
theorem readStrict_agrees (source : Text) :
    readStrict (blankLoose source) = (read source, none) ∧
    ((readStrict source).2 = none ↔ blankLoose source = source) ∧
    (blankLoose source = source → readStrict source = (read source, none)) ∧
    (blankLoose source ≠ source → ∃ i c m, source[i]? = some c ∧
      IsLoose source (read source) i ∧ (∀ j < i, ¬ IsLoose source (read source) j) ∧
      readStrict source = ((read source).filter (·.stop ≤ i), some m) ∧ m.start = i ∧
      (c = '{' ∨ c = '[' → m.stop = source.length ∧ m.found = source.drop i) ∧
      (c = '}' ∨ c = ']' → m.stop = i + 1 ∧ m.found = [c])) := by
  have hblank : readStrict (blankLoose source) = (read source, none) := by
    rcases readStrict_eq (blankLoose source) with ⟨hall, -⟩ | ⟨i, -, -, hloose, -⟩
    · rw [hall, read_blankLoose]
    · exact absurd hloose (not_isLoose_blankLoose source i)
  refine ⟨hblank, ?_⟩
  rw [ne_eq, blankLoose_eq_self_iff]
  rcases readStrict_eq source with ⟨hall, hnone⟩ | ⟨i, c, hc, hloose, hbefore, hstrict⟩
  · exact ⟨by simp [hall, hnone], fun _ => hall, fun hsome => absurd hnone hsome⟩
  · have hsome : ¬ ∀ i, ¬ IsLoose source (read source) i := fun hnone => hnone i hloose
    rw [misplaced_eq hc] at hstrict
    refine ⟨by simp [hstrict, hsome], fun hnone => absurd hnone hsome,
      fun _ => ⟨i, c, _, hc, hloose, hbefore, hstrict, ?_, ?_, ?_⟩⟩
    · split <;> rfl
    · rintro (rfl | rfl) <;> exact ⟨rfl, rfl⟩
    · rintro (rfl | rfl) <;> exact ⟨rfl, rfl⟩

end StackScript.Token
