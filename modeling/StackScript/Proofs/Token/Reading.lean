import Mathlib.Data.List.Pairwise
import Mathlib.Data.Nat.Find
import StackScript.Proofs.Token.Rejoin

/-! # What a reading is

The tokens of a source can be told without reading it from left to right: by where they stand,
what each kind looks like there, and what is left outside of all of them. Exactly one list of
tokens meets this description, and it is the one that is read.
-/

namespace StackScript.Token

/-! ## The description -/

/-- Openers and closers are equal in number. -/
def IsBalanced (opener closer : Char) (t : Text) : Prop := t.count opener = t.count closer

/-- From `start` to `stop` stands the shortest text that begins with the opener there and is
balanced. -/
structure IsBracketed (opener closer : Char) (source : Text) (start stop : Nat) : Prop where
  opens : source[start]? = some opener
  balanced : IsBalanced opener closer (source.extract start stop)
  shortest : ∀ earlier, start < earlier → earlier < stop →
    ¬ IsBalanced opener closer (source.extract start earlier)

/-- From `start` to `stop` stands a double quote, anything but double quotes, and a double
quote. -/
def IsQuoted (source : Text) (start stop : Nat) : Prop :=
  ∃ content, '"' ∉ content ∧ source.extract start stop = '"' :: content ++ ['"']

/-- From `start` to `stop` stand neither blanks nor brackets, and behind it a blank, a bracket
or nothing. If it begins with a double quote, no other one follows it in the source. -/
structure IsWord (source : Text) (start stop : Nat) : Prop where
  chars : ∀ c ∈ source.extract start stop, ¬ Text.isBlank c ∧ ¬ isBracket c
  ends : ∀ c, source[stop]? = some c → Text.isBlank c ∨ isBracket c
  unclosed : source[start]? = some '"' → '"' ∉ source.drop (start + 1)

/-- What a token of each kind looks like in the source. -/
def Kind.Describes (kind : Kind) (source : Text) (start stop : Nat) : Prop :=
  match kind with
  | .block => IsBracketed '{' '}' source start stop
  | .array => IsBracketed '[' ']' source start stop
  | .string => IsQuoted source start stop
  | .word => IsWord source start stop

/-- The token stands in the source, with the text that it says, and looks like its kind. -/
structure StandsIn (token : Token) (source : Text) : Prop where
  nonempty : token.start < token.stop
  text_eq : token.text = source.extract token.start token.stop
  described : token.kind.Describes source token.start token.stop

/-- The position lies within the token. -/
def Covers (token : Token) (i : Nat) : Prop := token.start ≤ i ∧ i < token.stop

instance (token : Token) (i : Nat) : Decidable (token.Covers i) :=
  inferInstanceAs (Decidable (_ ∧ _))

/-- The tokens are what there is to be read in the source from position `start` on: disjoint
tokens in increasing order, between which stand only blanks and brackets that open no balanced
text. -/
structure IsReading (source : Text) (start : Nat) (tokens : List Token) : Prop where
  start_le : ∀ t ∈ tokens, start ≤ t.start
  ordered : tokens.Pairwise fun t later => t.stop ≤ later.start
  stands : ∀ t ∈ tokens, t.StandsIn source
  outside : ∀ i c, start ≤ i → source[i]? = some c → (∀ t ∈ tokens, ¬ t.Covers i) →
    Text.isBlank c ∨ isBracket c
  unbalanced : ∀ i opener closer kind, start ≤ i → source[i]? = some opener →
    family? opener = some (closer, kind) → (∀ t ∈ tokens, ¬ t.Covers i) →
    ∀ stop, i < stop → stop ≤ source.length →
      ¬ IsBalanced opener closer (source.extract i stop)

/-! ## Closing brackets -/

/-- After `n` code points all of the `depth` open brackets are closed. -/
def ClosesAt (opener closer : Char) (depth : Nat) (t : Text) (n : Nat) : Prop :=
  n ≤ t.length ∧ depth + (t.take n).count opener = (t.take n).count closer

section Closing

variable {opener closer : Char} {depth n : Nat} {t : Text}

theorem closesAt_zero : ClosesAt opener closer depth t 0 ↔ depth = 0 := by
  simp [ClosesAt]

theorem closesAt_cons (hne : opener ≠ closer) (c : Char) (rest : Text) :
    ClosesAt opener closer (depth + 1) (c :: rest) (n + 1) ↔
      ClosesAt opener closer
        (if c == opener then depth + 2 else if c == closer then depth else depth + 1) rest n := by
  simp only [ClosesAt, List.length_cons, List.take_succ_cons, List.count_cons]
  by_cases hopener : c = opener
  · subst hopener
    simp [hne]
    omega
  · by_cases hcloser : c = closer
    · subst hcloser
      simp [Ne.symm hne]
      omega
    · simp [hopener, hcloser]

/-- The length is the first one at which all brackets are closed. -/
theorem closeLength_eq_some_iff (hne : opener ≠ closer) :
    closeLength opener closer depth t = some n ↔
      ClosesAt opener closer depth t n ∧ ∀ m < n, ¬ ClosesAt opener closer depth t m := by
  induction t generalizing depth n with
  | nil =>
      cases depth with
      | zero => cases n <;> simp [closeLength, ClosesAt]
      | succ depth => simp [closeLength, ClosesAt]
  | cons c rest ih =>
      cases depth with
      | zero =>
          cases n with
          | zero => simp [closeLength, closesAt_zero]
          | succ n =>
              refine iff_of_false (by simp [closeLength]) fun h => ?_
              exact h.2 0 (Nat.succ_pos n) (closesAt_zero.mpr rfl)
      | succ depth =>
          cases n with
          | zero => simp [closeLength, closesAt_zero]
          | succ n =>
              simp only [closeLength, Option.map_eq_some_iff, Nat.add_right_cancel_iff,
                exists_eq_right, ih, closesAt_cons hne]
              refine and_congr_right fun _ => ⟨fun h m hm => ?_, fun h m hm => ?_⟩
              · cases m with
                | zero => simp [closesAt_zero]
                | succ m =>
                    rw [closesAt_cons hne]
                    exact h m (Nat.lt_of_succ_lt_succ hm)
              · rw [← closesAt_cons hne]
                exact h (m + 1) (Nat.succ_lt_succ hm)

theorem closeLength_eq_none_iff (hne : opener ≠ closer) :
    closeLength opener closer depth t = none ↔ ∀ n, ¬ ClosesAt opener closer depth t n := by
  classical
  rw [Option.eq_none_iff_forall_ne_some]
  constructor
  · intro hnone n hcloses
    have hexists : ∃ n, ClosesAt opener closer depth t n := ⟨n, hcloses⟩
    refine hnone (Nat.find hexists) ((closeLength_eq_some_iff hne).mpr ⟨Nat.find_spec hexists, ?_⟩)
    exact fun m hm => Nat.find_min hexists hm
  · intro hnever n hsome
    exact hnever n ((closeLength_eq_some_iff hne).mp hsome).1

end Closing

theorem quoteLength_eq_some_iff {t : Text} {n : Nat} :
    quoteLength t = some n ↔
      ∃ content, '"' ∉ content ∧ n = content.length + 1 ∧ t.take n = content ++ ['"'] := by
  induction t generalizing n with
  | nil => simp [quoteLength]
  | cons c rest ih =>
      rw [quoteLength]
      by_cases hc : c = '"'
      · subst hc
        simp only [beq_self_eq_true, if_true, Option.some.injEq]
        constructor
        · rintro rfl
          exact ⟨[], by simp, rfl, rfl⟩
        · rintro ⟨content, hcontent, rfl, htake⟩
          cases content with
          | nil => rfl
          | cons d content =>
              simp only [List.length_cons, List.take_succ_cons, List.cons_append,
                List.cons.injEq] at htake
              exact absurd (htake.1 ▸ List.mem_cons_self) hcontent
      · simp only [beq_iff_eq, hc, if_false, Option.map_eq_some_iff, ih]
        constructor
        · rintro ⟨m, ⟨content, hcontent, rfl, htake⟩, rfl⟩
          exact ⟨c :: content, by simp [hcontent, Ne.symm hc], by simp, by simp [htake]⟩
        · rintro ⟨content, hcontent, rfl, htake⟩
          cases content with
          | nil => simp [hc] at htake
          | cons d content =>
              simp only [List.length_cons, List.take_succ_cons, List.cons_append,
                List.cons.injEq] at htake
              obtain ⟨rfl, htake⟩ := htake
              simp only [List.mem_cons, not_or] at hcontent
              exact ⟨_, ⟨content, hcontent.2, rfl, htake⟩, rfl⟩

/-! ## A token at a position -/

theorem family?_eq_some_iff {c closer : Char} {kind : Kind} :
    family? c = some (closer, kind) ↔
      c = '{' ∧ closer = '}' ∧ kind = .block ∨ c = '[' ∧ closer = ']' ∧ kind = .array := by
  unfold family?
  split <;> simp_all [eq_comm]

theorem ne_of_family {c closer : Char} {kind : Kind} (hfamily : family? c = some (closer, kind)) :
    c ≠ closer := by
  rcases family?_eq_some_iff.mp hfamily with ⟨rfl, rfl, -⟩ | ⟨rfl, rfl, -⟩ <;> decide

theorem isWordChar_eq_true_iff {c : Char} :
    isWordChar c = true ↔ ¬ Text.isBlank c ∧ ¬ isBracket c := by
  simp [isWordChar]

theorem length_takeWhile_eq_iff {p : Char → Bool} {t : Text} {n : Nat} (hn : n ≤ t.length) :
    n = (t.takeWhile p).length ↔
      (∀ c ∈ t.take n, p c = true) ∧ ∀ c, t[n]? = some c → p c = false := by
  induction t generalizing n with
  | nil =>
      cases Nat.le_zero.mp hn
      simp
  | cons c rest ih =>
      cases n with
      | zero => cases h : p c <;> simp [h]
      | succ n =>
          have hrest := @ih n (Nat.le_of_succ_le_succ hn)
          cases h : p c <;> simp [h, hrest]

section Position

variable {source rest : Text} {start n : Nat} {c : Char}

theorem getElem?_of_drop (hsource : source.drop start = c :: rest) : source[start]? = some c := by
  have h : (source.drop start)[0]? = source[start + 0]? := List.getElem?_drop
  rw [hsource] at h
  exact h.symm

theorem length_of_drop (hsource : source.drop start = c :: rest) :
    start + 1 + rest.length = source.length := by
  have h := congrArg List.length hsource
  simp only [List.length_drop, List.length_cons] at h
  omega

theorem drop_of_drop (hsource : source.drop start = c :: rest) (m : Nat) :
    source.drop (start + 1 + m) = rest.drop m := by
  rw [← List.drop_drop, ← List.drop_drop, hsource, List.drop_succ_cons, List.drop_zero]

theorem drop_succ_of_drop (hsource : source.drop start = c :: rest) :
    source.drop (start + 1) = rest := by
  simpa using drop_of_drop hsource 0

theorem extract_of_drop (hsource : source.drop start = c :: rest) (m : Nat) :
    source.extract start (start + 1 + m) = c :: rest.take m := by
  rw [List.extract_eq_take_drop, hsource, show start + 1 + m - start = m + 1 by omega,
    List.take_succ_cons]

theorem isBalanced_extract_iff {closer : Char} (hne : c ≠ closer)
    (hsource : source.drop start = c :: rest) (hn : n ≤ rest.length) :
    IsBalanced c closer (source.extract start (start + 1 + n)) ↔ ClosesAt c closer 1 rest n := by
  simp only [extract_of_drop hsource, IsBalanced, ClosesAt, hn, true_and, List.count_cons_self,
    List.count_cons_of_ne hne]
  omega

theorem isBracketed_iff {opener closer : Char} (hne : opener ≠ closer)
    (hsource : source.drop start = c :: rest) (hn : n ≤ rest.length) :
    IsBracketed opener closer source start (start + 1 + n) ↔
      c = opener ∧ closeLength opener closer 1 rest = some n := by
  have hfirst := getElem?_of_drop hsource
  rw [closeLength_eq_some_iff hne]
  constructor
  · rintro ⟨hopens, hclosed, hshortest⟩
    obtain rfl : c = opener := Option.some.inj (hfirst.symm.trans hopens)
    refine ⟨rfl, (isBalanced_extract_iff hne hsource hn).mp hclosed, fun m hm => ?_⟩
    rw [← isBalanced_extract_iff hne hsource (by omega)]
    exact hshortest _ (by omega) (by omega)
  · rintro ⟨rfl, hclosed, hshortest⟩
    refine ⟨hfirst, (isBalanced_extract_iff hne hsource hn).mpr hclosed,
      fun earlier hlow hhigh => ?_⟩
    obtain ⟨m, rfl⟩ : ∃ m, earlier = start + 1 + m := ⟨earlier - (start + 1), by omega⟩
    rw [isBalanced_extract_iff hne hsource (by omega)]
    exact hshortest m (by omega)

theorem isQuoted_iff (hsource : source.drop start = c :: rest) (hn : n ≤ rest.length) :
    IsQuoted source start (start + 1 + n) ↔ c = '"' ∧ quoteLength rest = some n := by
  rw [IsQuoted, extract_of_drop hsource, quoteLength_eq_some_iff]
  constructor
  · rintro ⟨content, hcontent, htext⟩
    obtain ⟨hc, htake⟩ := List.cons.inj htext
    refine ⟨hc, content, hcontent, ?_, htake⟩
    have hlength := congrArg List.length htake
    simpa [Nat.min_eq_left hn] using hlength
  · rintro ⟨rfl, content, hcontent, -, htake⟩
    exact ⟨content, hcontent, by rw [htake, List.cons_append]⟩

theorem isWord_iff (hsource : source.drop start = c :: rest) (hn : n ≤ rest.length) :
    IsWord source start (start + 1 + n) ↔
      isWordChar c ∧ (c = '"' → '"' ∉ rest) ∧ n = (rest.takeWhile isWordChar).length := by
  have hfirst := getElem?_of_drop hsource
  have hnext : source[start + 1 + n]? = rest[n]? := by
    have h := congrArg (·[0]?) (drop_of_drop hsource n)
    simpa [List.getElem?_drop] using h
  have hdrop := drop_succ_of_drop hsource
  rw [length_takeWhile_eq_iff hn]
  constructor
  · rintro ⟨hchars, hends, hunclosed⟩
    rw [extract_of_drop hsource] at hchars
    simp only [← isWordChar_eq_true_iff] at hchars
    refine ⟨hchars c List.mem_cons_self, fun hc => ?_,
      fun d hd => hchars d (List.mem_cons_of_mem c hd), fun d hd => ?_⟩
    · subst hc
      rw [← hdrop]
      exact hunclosed hfirst
    · rw [Bool.eq_false_iff, ne_eq, isWordChar_eq_true_iff]
      exact fun h => (hends d (hnext.trans hd)).elim h.1 h.2
  · rintro ⟨hc, hquote, hchars, hends⟩
    refine ⟨?_, fun d hd => ?_, fun hopens => ?_⟩
    · rw [extract_of_drop hsource]
      simp only [← isWordChar_eq_true_iff, List.forall_mem_cons]
      exact ⟨hc, hchars⟩
    · have hd := hends d (hnext.symm.trans hd)
      rw [Bool.eq_false_iff, ne_eq, isWordChar_eq_true_iff] at hd
      tauto
    · rw [hdrop]
      exact hquote (Option.some.inj (hfirst.symm.trans hopens))

/-- What a token looks like at a position is what the lexeme there is. -/
theorem describes_iff {kind : Kind} (hsource : source.drop start = c :: rest)
    (hn : n ≤ rest.length) :
    kind.Describes source start (start + 1 + n) ↔
      ¬ Text.isBlank c ∧ lexeme? c rest = some (kind, n) := by
  constructor
  · intro hdescribes
    cases kind with
    | block =>
        obtain ⟨rfl, hclose⟩ := (isBracketed_iff (by decide) hsource hn).mp hdescribes
        exact ⟨by decide, lexeme?_of_family rfl hclose⟩
    | array =>
        obtain ⟨rfl, hclose⟩ := (isBracketed_iff (by decide) hsource hn).mp hdescribes
        exact ⟨by decide, lexeme?_of_family rfl hclose⟩
    | string =>
        obtain ⟨rfl, hquote⟩ := (isQuoted_iff hsource hn).mp hdescribes
        exact ⟨by decide, lexeme?_of_quote hquote⟩
    | word =>
        obtain ⟨hc, hquote, rfl⟩ := (isWord_iff hsource hn).mp hdescribes
        obtain ⟨hblank, hbracket⟩ := isWordChar_eq_true_iff.mp hc
        have hfamily : family? c = none := by
          rw [Option.eq_none_iff_forall_ne_some]
          rintro ⟨closer, kind⟩ hfamily
          rcases family?_eq_some_iff.mp hfamily with ⟨rfl, -, -⟩ | ⟨rfl, -, -⟩
          · exact hbracket rfl
          · exact hbracket rfl
        exact ⟨hblank, lexeme?_of_word hfamily (by simpa using hbracket) hquote⟩
  · rintro ⟨hblank, hlexeme⟩
    rcases lexeme?_eq_some hlexeme with ⟨closer, hfamily, hclose⟩ | ⟨-, -, rfl, hc, hquote⟩ |
      ⟨-, hbracket, rfl, hquote, hlength⟩
    · rcases family?_eq_some_iff.mp hfamily with ⟨rfl, rfl, rfl⟩ | ⟨rfl, rfl, rfl⟩
      · exact (isBracketed_iff (by decide) hsource hn).mpr ⟨rfl, hclose⟩
      · exact (isBracketed_iff (by decide) hsource hn).mpr ⟨rfl, hclose⟩
    · exact (isQuoted_iff hsource hn).mpr ⟨hc, hquote⟩
    · have hc := isWordChar_eq_true_iff.mpr ⟨hblank, by simp [hbracket]⟩
      exact (isWord_iff hsource hn).mpr ⟨hc, hquote, hlength⟩

theorem stop_lexeme {kind : Kind} (start : Nat) (hlexeme : lexeme? c rest = some (kind, n)) :
    stop ⟨kind, c :: rest.take n, start⟩ = start + 1 + n := by
  have hfits := lexeme?_length_le hlexeme
  simp only [stop, List.length_cons, List.length_take]
  omega

/-- The token that stands at a position is the lexeme there. -/
theorem standsIn_iff {t : Token} (hsource : source.drop start = c :: rest) :
    t.StandsIn source ∧ t.start = start ↔
      ¬ Text.isBlank c ∧
        ∃ kind n, lexeme? c rest = some (kind, n) ∧ t = ⟨kind, c :: rest.take n, start⟩ := by
  have hlength := length_of_drop hsource
  constructor
  · obtain ⟨kind, text, first⟩ := t
    rintro ⟨⟨hnonempty, htext, hdescribed⟩, hstart⟩
    simp only [stop] at hnonempty htext hdescribed hstart
    subst hstart
    obtain ⟨n, hn⟩ : ∃ n, text.length = n + 1 := ⟨text.length - 1, by omega⟩
    rw [hn, Nat.add_comm n, ← Nat.add_assoc] at htext hdescribed
    have hfits : n ≤ rest.length := by
      have h := congrArg List.length htext
      simp only [List.extract_eq_take_drop, List.length_take, List.length_drop] at h
      omega
    rw [extract_of_drop hsource] at htext
    obtain ⟨hblank, hlexeme⟩ := (describes_iff hsource hfits).mp hdescribed
    exact ⟨hblank, kind, n, hlexeme, by rw [htext]⟩
  · rintro ⟨hblank, kind, n, hlexeme, rfl⟩
    have hfits := lexeme?_length_le hlexeme
    have hstop := stop_lexeme start hlexeme
    refine ⟨⟨?_, ?_, ?_⟩, rfl⟩
    · rw [hstop, Nat.add_assoc]
      exact Nat.lt_add_of_pos_right (Nat.add_pos_left Nat.one_pos n)
    · rw [hstop]
      exact (extract_of_drop hsource n).symm
    · rw [hstop]
      exact (describes_iff hsource hfits).mpr ⟨hblank, hlexeme⟩

end Position

/-! ## Reading step by step -/

section Steps

variable {source : Text} {start : Nat} {tokens : List Token}

theorem StandsIn.stop_le_length {t : Token} (hstands : t.StandsIn source) :
    t.stop ≤ source.length := by
  have hlength := congrArg List.length hstands.text_eq
  have hnonempty := hstands.nonempty
  simp only [List.extract_eq_take_drop, List.length_take, List.length_drop] at hlength
  simp only [stop] at hlength hnonempty ⊢
  omega

/-- At the end of the source nothing is left to be read. -/
theorem isReading_of_length_le (hstart : source.length ≤ start) :
    IsReading source start tokens ↔ tokens = [] := by
  have hnone (i : Nat) (hi : start ≤ i) : source[i]? = none :=
    List.getElem?_eq_none (by omega)
  constructor
  · intro hreading
    rw [List.eq_nil_iff_forall_not_mem]
    intro t ht
    have hlow := hreading.start_le t ht
    have hhigh := (hreading.stands t ht).stop_le_length
    have hnonempty := (hreading.stands t ht).nonempty
    omega
  · rintro rfl
    refine ⟨by simp, List.Pairwise.nil, by simp, fun i c hi hc => ?_, fun i o c k hi hc => ?_⟩
    · rw [hnone i hi] at hc
      cases hc
    · rw [hnone i hi] at hc
      cases hc

/-- Behind its first token a reading goes on. -/
theorem IsReading.tail {t : Token} (hreading : IsReading source start (t :: tokens)) :
    IsReading source t.stop tokens := by
  obtain ⟨hbefore, hordered⟩ := List.pairwise_cons.mp hreading.ordered
  obtain ⟨hlow, -⟩ := List.forall_mem_cons.mp hreading.start_le
  obtain ⟨hstands, hrest⟩ := List.forall_mem_cons.mp hreading.stands
  have hnonempty := hstands.nonempty
  have hbehind (i : Nat) (hi : t.stop ≤ i) (huncovered : ∀ u ∈ tokens, ¬ u.Covers i) :
      ∀ u ∈ t :: tokens, ¬ u.Covers i :=
    List.forall_mem_cons.mpr ⟨fun hcovers => absurd hcovers.2 (by omega), huncovered⟩
  exact ⟨hbefore, hordered, hrest,
    fun i c hi hc huncovered => hreading.outside i c (by omega) hc (hbehind i hi huncovered),
    fun i o closer kind hi ho hfamily huncovered =>
      hreading.unbalanced i o closer kind (by omega) ho hfamily (hbehind i hi huncovered)⟩

/-- A token may be put in front of what is read behind it. -/
theorem IsReading.cons {t : Token} (hstands : t.StandsIn source)
    (hreading : IsReading source t.stop tokens) : IsReading source t.start (t :: tokens) := by
  have hnonempty := hstands.nonempty
  have hbehind (i : Nat) (hi : t.start ≤ i) (huncovered : ∀ u ∈ t :: tokens, ¬ u.Covers i) :
      t.stop ≤ i ∧ ∀ u ∈ tokens, ¬ u.Covers i := by
    obtain ⟨htoken, hrest⟩ := List.forall_mem_cons.mp huncovered
    exact ⟨Nat.le_of_not_lt fun hlt => htoken ⟨hi, hlt⟩, hrest⟩
  refine ⟨List.forall_mem_cons.mpr ⟨Nat.le_refl _, fun u hu => ?_⟩,
    List.pairwise_cons.mpr ⟨hreading.start_le, hreading.ordered⟩,
    List.forall_mem_cons.mpr ⟨hstands, hreading.stands⟩, fun i c hi hc huncovered => ?_,
    fun i o closer kind hi ho hfamily huncovered => ?_⟩
  · have hlow := hreading.start_le u hu
    omega
  · obtain ⟨hlow, hrest⟩ := hbehind i hi huncovered
    exact hreading.outside i c hlow hc hrest
  · obtain ⟨hlow, hrest⟩ := hbehind i hi huncovered
    exact hreading.unbalanced i o closer kind hlow ho hfamily hrest

/-- A token at the position from which on is read comes first. -/
theorem IsReading.eq_cons_of_start {t : Token} (hreading : IsReading source start tokens)
    (ht : t ∈ tokens) (hstart : t.start = start) : ∃ more, tokens = t :: more := by
  cases tokens with
  | nil => cases ht
  | cons first more =>
      rcases List.mem_cons.mp ht with rfl | hmore
      · exact ⟨more, rfl⟩
      · have hlate := (List.pairwise_cons.mp hreading.ordered).1 t hmore
        have hearly := hreading.start_le first List.mem_cons_self
        have hnonempty := (hreading.stands first List.mem_cons_self).nonempty
        omega

/-- A code point at which no token can stand is skipped. -/
theorem isReading_skip {c : Char} (hc : source[start]? = some c)
    (hno : ∀ t : Token, t.StandsIn source → t.start ≠ start)
    (houtside : Text.isBlank c ∨ isBracket c)
    (hunbalanced : ∀ closer kind, family? c = some (closer, kind) → ∀ stop, start < stop →
      stop ≤ source.length → ¬ IsBalanced c closer (source.extract start stop)) :
    IsReading source start tokens ↔ IsReading source (start + 1) tokens := by
  constructor
  · intro hreading
    refine ⟨fun t ht => ?_, hreading.ordered, hreading.stands, fun i d hi => ?_,
      fun i o d k hi => ?_⟩
    · have hlow := hreading.start_le t ht
      have hne := hno t (hreading.stands t ht)
      omega
    · exact hreading.outside i d (by omega)
    · exact hreading.unbalanced i o d k (by omega)
  · intro hreading
    refine ⟨fun t ht => ?_, hreading.ordered, hreading.stands, fun i d hi hd => ?_,
      fun i o closer kind hi ho => ?_⟩
    · have hlow := hreading.start_le t ht
      omega
    · rcases Nat.eq_or_lt_of_le hi with rfl | hi
      · cases hc.symm.trans hd
        exact fun _ => houtside
      · exact hreading.outside i d hi hd
    · rcases Nat.eq_or_lt_of_le hi with rfl | hi
      · cases hc.symm.trans ho
        exact fun hfamily _ => hunbalanced closer kind hfamily
      · exact hreading.unbalanced i o closer kind hi ho

theorem lexeme?_eq_none {c : Char} {rest : Text} (hlexeme : lexeme? c rest = none) :
    isBracket c ∧
      ∀ closer kind, family? c = some (closer, kind) → closeLength c closer 1 rest = none := by
  unfold lexeme? at hlexeme
  split at hlexeme
  next closer kind hfamily =>
    refine ⟨?_, fun closer' kind' hfamily' => ?_⟩
    · rcases family?_eq_some_iff.mp hfamily with ⟨rfl, -, -⟩ | ⟨rfl, -, -⟩ <;> rfl
    · cases hfamily.symm.trans hfamily'
      exact Option.map_eq_none_iff.mp hlexeme
  next hfamily =>
    refine ⟨?_, fun closer kind hfamily' => absurd (hfamily.symm.trans hfamily') (by simp)⟩
    by_contra hbracket
    rw [if_neg hbracket] at hlexeme
    simp only at hlexeme
    split at hlexeme <;> cases hlexeme

variable {c : Char} {rest : Text}

theorem isReading_blank (hsource : source.drop start = c :: rest) (hblank : Text.isBlank c) :
    IsReading source start tokens ↔ IsReading source (start + 1) tokens := by
  refine isReading_skip (getElem?_of_drop hsource) (fun t hstands hstart => ?_) (Or.inl hblank)
    fun closer kind hfamily => ?_
  · exact ((standsIn_iff hsource).mp ⟨hstands, hstart⟩).1 hblank
  · rcases family?_eq_some_iff.mp hfamily with ⟨rfl, -, -⟩ | ⟨rfl, -, -⟩
    · exact absurd hblank (by decide)
    · exact absurd hblank (by decide)

theorem isReading_bracket (hsource : source.drop start = c :: rest)
    (hlexeme : lexeme? c rest = none) :
    IsReading source start tokens ↔ IsReading source (start + 1) tokens := by
  obtain ⟨hbracket, hclose⟩ := lexeme?_eq_none hlexeme
  refine isReading_skip (getElem?_of_drop hsource) (fun t hstands hstart => ?_) (Or.inr hbracket)
    fun closer kind hfamily later hlow hhigh => ?_
  · obtain ⟨-, kind, n, hsome, -⟩ := (standsIn_iff hsource).mp ⟨hstands, hstart⟩
    rw [hlexeme] at hsome
    cases hsome
  · have hne := ne_of_family hfamily
    have hlength := length_of_drop hsource
    obtain ⟨m, rfl⟩ : ∃ m, later = start + 1 + m := ⟨later - (start + 1), by omega⟩
    rw [isBalanced_extract_iff hne hsource (by omega)]
    exact (closeLength_eq_none_iff hne).mp (hclose closer kind hfamily) m

/-- Where a lexeme begins, a reading has a token. -/
theorem IsReading.exists_covers {kind : Kind} {n : Nat} (hreading : IsReading source start tokens)
    (hsource : source.drop start = c :: rest) (hblank : ¬ Text.isBlank c)
    (hlexeme : lexeme? c rest = some (kind, n)) : ∃ t ∈ tokens, t.Covers start := by
  by_contra huncovered
  push Not at huncovered
  have hfirst := getElem?_of_drop hsource
  have hbracket := (hreading.outside start c (Nat.le_refl start) hfirst huncovered).resolve_left
    hblank
  rcases lexeme?_eq_some hlexeme with ⟨closer, hfamily, hclose⟩ | ⟨-, hword, -⟩ | ⟨-, hword, -⟩
  · -- the opener would begin a balanced text outside of all tokens
    have hne := ne_of_family hfamily
    have hfits := lexeme?_length_le hlexeme
    have hlength := length_of_drop hsource
    refine hreading.unbalanced start c closer kind (Nat.le_refl start) hfirst hfamily huncovered
      (start + 1 + n) (by omega) (by omega) ?_
    rw [isBalanced_extract_iff hne hsource hfits]
    exact ((closeLength_eq_some_iff hne).mp hclose).1
  · rw [hword] at hbracket
    cases hbracket
  · rw [hword] at hbracket
    cases hbracket

/-- The lexeme at a position is read as a token, and what follows is read behind it. -/
theorem isReading_token {kind : Kind} {n : Nat} (hsource : source.drop start = c :: rest)
    (hblank : ¬ Text.isBlank c) (hlexeme : lexeme? c rest = some (kind, n)) :
    IsReading source start tokens ↔
      ∃ more, tokens = ⟨kind, c :: rest.take n, start⟩ :: more ∧
        IsReading source (start + 1 + n) more := by
  have hunique (t : Token) : t.StandsIn source ∧ t.start = start ↔
      t = ⟨kind, c :: rest.take n, start⟩ := by
    rw [standsIn_iff hsource]
    simp [hblank, hlexeme]
  have hstop := stop_lexeme start hlexeme
  generalize (⟨kind, c :: rest.take n, start⟩ : Token) = token at hunique hstop ⊢
  obtain ⟨hstands, hstart⟩ := (hunique token).mpr rfl
  rw [← hstop]
  constructor
  · intro hreading
    obtain ⟨t, ht, hlow, -⟩ := hreading.exists_covers hsource hblank hlexeme
    have ht_start : t.start = start := Nat.le_antisymm hlow (hreading.start_le t ht)
    obtain rfl := (hunique t).mp ⟨hreading.stands t ht, ht_start⟩
    obtain ⟨more, rfl⟩ := hreading.eq_cons_of_start ht ht_start
    exact ⟨more, rfl, hreading.tail⟩
  · rintro ⟨more, rfl, hreading⟩
    rw [← hstart]
    exact hreading.cons hstands

end Steps

/-! ## The reading -/

/-- What is read from a position on is the only reading there. -/
theorem isReading_iff_of_drop {source t : Text} {start : Nat} (hsource : source.drop start = t)
    {tokens : List Token} :
    IsReading source start tokens ↔ tokens = (Piece.ofText start t).filterMap Piece.token? := by
  fun_induction Piece.ofText start t generalizing tokens with
  | case1 start =>
      exact isReading_of_length_le (List.drop_eq_nil_iff.mp hsource)
  | case2 start c rest hblank ih =>
      rw [isReading_blank hsource hblank]
      exact ih (drop_succ_of_drop hsource)
  | case3 start c rest hblank kind n hlexeme ih =>
      simp only [isReading_token hsource hblank hlexeme, ih (drop_of_drop hsource n)]
      simp [Piece.token?]
  | case4 start c rest hblank hlexeme ih =>
      rw [isReading_bracket hsource hlexeme, ih (drop_succ_of_drop hsource)]
      rfl

theorem isReading_iff {source : Text} {tokens : List Token} :
    IsReading source 0 tokens ↔ tokens = read source :=
  isReading_iff_of_drop (List.drop_zero)

theorem isReading_read (source : Text) : IsReading source 0 (read source) :=
  isReading_iff.mpr rfl

/-- No position lies within two tokens. -/
theorem IsReading.covers_unique {source : Text} {start i : Nat} {tokens : List Token}
    (hreading : IsReading source start tokens) {t u : Token} (ht : t ∈ tokens) (hu : u ∈ tokens)
    (hti : t.Covers i) (hui : u.Covers i) : t = u := by
  by_contra hne
  have hordered : tokens.Pairwise fun t u => t.stop ≤ u.start ∨ u.stop ≤ t.start :=
    hreading.ordered.imp Or.inl
  have : Std.Symm fun t u : Token => t.stop ≤ u.start ∨ u.stop ≤ t.start := ⟨fun _ _ => Or.symm⟩
  have happart := hordered.forall ht hu hne
  obtain ⟨hlow, hhigh⟩ := hti
  obtain ⟨hlow', hhigh'⟩ := hui
  omega

/-- The tokens of a source are disjoint and in increasing order, have the texts that stand in
the source where they say, and look like their kinds; outside of them stand only blanks and
brackets that open no balanced text. No other list of tokens is like that. So every code point
that is neither a blank nor a bracket lies within exactly one token. -/
theorem read_exact (source : Text) :
    IsReading source 0 (read source) ∧
    (∀ tokens, IsReading source 0 tokens → tokens = read source) ∧
    ∀ i c, source[i]? = some c → ¬ Text.isBlank c → ¬ isBracket c →
      ∃! t, t ∈ read source ∧ t.Covers i := by
  have hreading := isReading_read source
  refine ⟨hreading, fun tokens => isReading_iff.mp, fun i c hc hblank hbracket => ?_⟩
  have hcovered : ∃ t ∈ read source, t.Covers i := by
    by_contra huncovered
    push Not at huncovered
    rcases hreading.outside i c (Nat.zero_le i) hc huncovered with h | h
    · exact hblank h
    · exact hbracket h
  obtain ⟨t, ht, hcovers⟩ := hcovered
  exact ⟨t, ⟨ht, hcovers⟩, fun u hu => hreading.covers_unique hu.1 ht hu.2 hcovers⟩

end StackScript.Token
