import Mathlib.Data.List.Basic
import Mathlib.Data.List.Pairwise
import Mathlib.Data.List.TakeWhile
import Mathlib.Tactic.Common
import StackScript.Token.Lexer

/-! # Token texts joined again

What a token is depends on nothing behind it, with one exception: a word that opens with an
unclosed double quote would become a string if a double quote came later. The token texts of
a source, or any of them in their order, are therefore read back unchanged when they are
joined by blanks.
-/

namespace StackScript.Token

/-! ## Reading step by step -/

/-- The token with `distance` more code points in front of it. -/
def shift (distance : Nat) (t : Token) : Token := { t with start := t.start + distance }

@[simp]
theorem stop_shift (distance : Nat) (t : Token) : (t.shift distance).stop = t.stop + distance :=
  Nat.add_right_comm t.start distance t.text.length

/-- Reading does not depend on the position at which it begins. -/
theorem tokens_ofText_add (start distance : Nat) (t : Text) :
    (Piece.ofText (start + distance) t).filterMap Piece.token? =
      ((Piece.ofText start t).filterMap Piece.token?).map (shift distance) := by
  fun_induction Piece.ofText start t with
  | case1 => simp [Piece.ofText]
  | case2 start c rest hblank ih =>
      rw [Piece.ofText, if_pos hblank, Nat.add_right_comm]
      exact ih
  | case3 start c rest hblank kind n hlexeme ih =>
      rw [Piece.ofText, if_neg hblank, hlexeme]
      simp only [Piece.token?, List.filterMap_cons, List.map_cons, ← ih]
      rw [Nat.add_right_comm start distance, Nat.add_right_comm (start + 1) distance]
      rfl
  | case4 start c rest hblank hlexeme ih =>
      rw [Piece.ofText, if_neg hblank, hlexeme, Nat.add_right_comm]
      exact ih

theorem tokens_ofText (start : Nat) (t : Text) :
    (Piece.ofText start t).filterMap Piece.token? = (read t).map (shift start) := by
  have hzero := tokens_ofText_add 0 start t
  rwa [Nat.zero_add] at hzero

theorem texts_ofText (start : Nat) (t : Text) :
    ((Piece.ofText start t).filterMap Piece.token?).map Token.text = texts t := by
  rw [tokens_ofText, List.map_map]
  rfl

@[simp]
theorem texts_nil : texts [] = [] := by
  simp [texts, read, Piece.ofText]

theorem texts_cons_blank {c : Char} (rest : Text) (hblank : Text.isBlank c) :
    texts (c :: rest) = texts rest := by
  rw [texts, read, Piece.ofText, if_pos hblank]
  exact texts_ofText _ _

theorem texts_cons_token {c : Char} {rest : Text} {kind : Kind} {n : Nat}
    (hblank : ¬ Text.isBlank c) (hlexeme : lexeme? c rest = some (kind, n)) :
    texts (c :: rest) = (c :: rest.take n) :: texts (rest.drop n) := by
  rw [texts, read, Piece.ofText, if_neg hblank, hlexeme]
  simp only [Piece.token?, List.filterMap_cons, List.map_cons]
  rw [texts_ofText]

theorem texts_cons_bracket {c : Char} {rest : Text} (hblank : ¬ Text.isBlank c)
    (hlexeme : lexeme? c rest = none) : texts (c :: rest) = texts rest := by
  rw [texts, read, Piece.ofText, if_neg hblank, hlexeme]
  simp only [Piece.token?, List.filterMap_cons]
  exact texts_ofText _ _

/-- Reading by cases on the first code point: it is blank, begins a token, or is a bracket
that belongs to none. -/
theorem texts_induction {motive : Text → Prop} (nil : motive [])
    (blank : ∀ c rest, Text.isBlank c → motive rest → motive (c :: rest))
    (token : ∀ c rest kind n, ¬ Text.isBlank c → lexeme? c rest = some (kind, n) →
      motive (rest.drop n) → motive (c :: rest))
    (bracket : ∀ c rest, ¬ Text.isBlank c → lexeme? c rest = none → motive rest →
      motive (c :: rest)) (t : Text) : motive t := by
  induction hlength : t.length using Nat.strongRecOn generalizing t with
  | ind length ih =>
    subst hlength
    cases t with
    | nil => exact nil
    | cons c rest =>
        by_cases hblank : Text.isBlank c
        · exact blank c rest hblank (ih rest.length (by simp) rest rfl)
        · cases hlexeme : lexeme? c rest with
          | none => exact bracket c rest hblank hlexeme (ih rest.length (by simp) rest rfl)
          | some found =>
              obtain ⟨kind, n⟩ := found
              refine token c rest kind n hblank hlexeme (ih _ ?_ _ rfl)
              simp only [List.length_drop, List.length_cons]
              omega

/-! ## What a lexeme depends on -/

/-- A stretch that is closed stays closed, whatever follows it. -/
theorem closeLength_append {opener closer : Char} {depth n : Nat} {t : Text}
    (hclose : closeLength opener closer depth t = some n) (more : Text) :
    n ≤ t.length ∧ closeLength opener closer depth (t.take n ++ more) = some n := by
  induction t generalizing depth n with
  | nil =>
      cases depth with
      | zero =>
          simp only [closeLength, Option.some.injEq] at hclose
          subst hclose
          simp [closeLength]
      | succ depth => simp [closeLength] at hclose
  | cons c rest ih =>
      cases depth with
      | zero =>
          simp only [closeLength, Option.some.injEq] at hclose
          subst hclose
          simp [closeLength]
      | succ depth =>
          simp only [closeLength, Option.map_eq_some_iff] at hclose
          obtain ⟨m, hrest, rfl⟩ := hclose
          obtain ⟨hle, hagain⟩ := ih hrest
          refine ⟨by simpa using hle, ?_⟩
          simp only [List.take_succ_cons, List.cons_append, closeLength, hagain]
          rfl

/-- Where no bracket of the family stands before it, a closing one closes the first. -/
theorem closeLength_of_not_mem {opener closer : Char} {t : Text} (hne : opener ≠ closer)
    (hopener : opener ∉ t) (hcloser : closer ∉ t) :
    closeLength opener closer 1 (t ++ [closer]) = some (t ++ [closer]).length := by
  induction t with
  | nil => simp [closeLength, hne.symm]
  | cons c rest ih =>
      rw [List.mem_cons, not_or] at hopener hcloser
      simp [closeLength, Ne.symm hopener.1, Ne.symm hcloser.1, ih hopener.2 hcloser.2]

/-- Blanks behind a text close nothing. -/
theorem closeLength_append_blanks {opener closer : Char} (hcloser : ¬ Text.isBlank closer)
    {blanks : Text} (hblanks : ∀ c ∈ blanks, Text.isBlank c) (depth : Nat) (t : Text) :
    closeLength opener closer depth (t ++ blanks) = closeLength opener closer depth t := by
  induction t generalizing depth with
  | nil =>
      induction blanks generalizing depth with
      | nil => rfl
      | cons c rest ih =>
          cases depth with
          | zero => rfl
          | succ depth =>
              -- a blank is no closing bracket, so the depth never falls
              have hc : c ≠ closer := by
                rintro rfl
                exact hcloser (hblanks c List.mem_cons_self)
              have hrest : ∀ depth, closeLength opener closer (depth + 1) rest = none := by
                intro depth
                exact ih (fun x hx => hblanks x (List.mem_cons_of_mem _ hx)) (depth + 1)
              simp only [List.nil_append, closeLength, beq_iff_eq, hc, if_false]
              split <;> simp [hrest]
  | cons c rest ih =>
      cases depth with
      | zero => simp [closeLength]
      | succ depth => simp only [List.cons_append, closeLength, ih]

theorem quoteLength_append {n : Nat} {t : Text} (hquote : quoteLength t = some n)
    (more : Text) : n ≤ t.length ∧ quoteLength (t.take n ++ more) = some n := by
  induction t generalizing n with
  | nil => simp [quoteLength] at hquote
  | cons c rest ih =>
      rw [quoteLength] at hquote
      split at hquote
      next hc =>
        simp only [Option.some.injEq] at hquote
        subst hquote
        simp [quoteLength, hc]
      next hc =>
        simp only [Option.map_eq_some_iff] at hquote
        obtain ⟨m, hrest, rfl⟩ := hquote
        obtain ⟨hle, hagain⟩ := ih hrest
        refine ⟨by simpa using hle, ?_⟩
        simp only [List.take_succ_cons, List.cons_append, quoteLength, hagain, if_neg hc]
        rfl

theorem quoteLength_eq_none {t : Text} : quoteLength t = none ↔ '"' ∉ t := by
  induction t with
  | nil => simp [quoteLength]
  | cons c rest ih =>
      rw [quoteLength]
      by_cases hc : c = '"'
      · simp [hc]
      · simp [hc, ih, Ne.symm hc]

/-- A word ends where a blank follows. -/
theorem takeWhile_wordChar_append (t : Text) {more : Text}
    (hmore : ∀ b ∈ more.head?, Text.isBlank b) :
    (t ++ more).takeWhile isWordChar = t.takeWhile isWordChar := by
  induction t with
  | nil =>
      cases more with
      | nil => rfl
      | cons b rest => simp [isWordChar, hmore b (by simp)]
  | cons c rest ih => simp only [List.cons_append, List.takeWhile_cons, ih]

/-- The first code point of a lexeme decides what it is looked for: a bracketed stretch, a
string or a word, or a word alone. -/
theorem lexeme?_eq_some {c : Char} {rest : Text} {kind : Kind} {n : Nat}
    (hlexeme : lexeme? c rest = some (kind, n)) :
    (∃ closer, family? c = some (closer, kind) ∧ closeLength c closer 1 rest = some n) ∨
    (family? c = none ∧ isBracket c = false ∧ kind = .string ∧ c = '"' ∧
      quoteLength rest = some n) ∨
    (family? c = none ∧ isBracket c = false ∧ kind = .word ∧ (c = '"' → '"' ∉ rest) ∧
      n = (rest.takeWhile isWordChar).length) := by
  unfold lexeme? at hlexeme
  split at hlexeme
  next closer family hfamily =>
    simp only [Option.map_eq_some_iff, Prod.mk.injEq] at hlexeme
    obtain ⟨m, hclose, rfl, rfl⟩ := hlexeme
    exact Or.inl ⟨closer, hfamily, hclose⟩
  next hfamily =>
    split at hlexeme
    next => simp at hlexeme
    next hbracket =>
      have hbracket : isBracket c = false := by simpa using hbracket
      simp only at hlexeme
      split at hlexeme
      next hc =>
        have hc : c = '"' := by simpa using hc
        cases hquote : quoteLength rest with
        | none =>
            simp only [hquote, Option.map_none, Option.getD_none, Option.some.injEq,
              Prod.mk.injEq] at hlexeme
            obtain ⟨rfl, rfl⟩ := hlexeme
            exact Or.inr (Or.inr ⟨hfamily, hbracket, rfl,
              fun _ => quoteLength_eq_none.mp hquote, rfl⟩)
        | some m =>
            simp only [hquote, Option.map_some, Option.getD_some, Option.some.injEq,
              Prod.mk.injEq] at hlexeme
            obtain ⟨rfl, rfl⟩ := hlexeme
            exact Or.inr (Or.inl ⟨hfamily, hbracket, rfl, hc, rfl⟩)
      next hc =>
        simp only [Option.some.injEq, Prod.mk.injEq] at hlexeme
        obtain ⟨rfl, rfl⟩ := hlexeme
        exact Or.inr (Or.inr ⟨hfamily, hbracket, rfl, fun h => absurd h (by simpa using hc), rfl⟩)

theorem lexeme?_of_family {c closer : Char} {rest : Text} {kind : Kind} {n : Nat}
    (hfamily : family? c = some (closer, kind)) (hclose : closeLength c closer 1 rest = some n) :
    lexeme? c rest = some (kind, n) := by
  simp [lexeme?, hfamily, hclose]

theorem lexeme?_of_quote {rest : Text} {n : Nat} (hquote : quoteLength rest = some n) :
    lexeme? '"' rest = some (.string, n) := by
  simp [lexeme?, family?, isBracket, hquote]

theorem lexeme?_of_word {c : Char} {rest : Text} (hfamily : family? c = none)
    (hbracket : isBracket c = false) (hquote : c = '"' → '"' ∉ rest) :
    lexeme? c rest = some (.word, (rest.takeWhile isWordChar).length) := by
  by_cases hc : c = '"'
  · have hnone := quoteLength_eq_none.mpr (hquote hc)
    simp [lexeme?, hfamily, hbracket, hnone]
  · simp [lexeme?, hfamily, hbracket, hc]

theorem lexeme?_length_le {c : Char} {rest : Text} {kind : Kind} {n : Nat}
    (hlexeme : lexeme? c rest = some (kind, n)) : n ≤ rest.length := by
  rcases lexeme?_eq_some hlexeme with ⟨closer, _, hclose⟩ | ⟨_, _, _, _, hquote⟩ | ⟨_, _, _, _, rfl⟩
  · exact (closeLength_append hclose []).1
  · exact (quoteLength_append hquote []).1
  · exact (List.takeWhile_prefix _).length_le

/-- A lexeme stays the same if what follows it is exchanged for a text that is empty or
begins with a blank, and that does not close a quote which the lexeme leaves open. -/
theorem lexeme?_append {c : Char} {rest more : Text} {kind : Kind} {n : Nat}
    (hlexeme : lexeme? c rest = some (kind, n)) (hmore : ∀ b ∈ more.head?, Text.isBlank b)
    (hquote : c = '"' → '"' ∉ rest.take n → '"' ∉ more) :
    lexeme? c (rest.take n ++ more) = some (kind, n) := by
  rcases lexeme?_eq_some hlexeme with ⟨closer, hfamily, hclose⟩ | ⟨_, _, rfl, rfl, hclosed⟩ |
    ⟨hfamily, hbracket, rfl, hopen, rfl⟩
  · exact lexeme?_of_family hfamily (closeLength_append hclose more).2
  · exact lexeme?_of_quote (quoteLength_append hclosed more).2
  · -- only a word could change, into a string, if a quote came behind it
    have htake : rest.take (rest.takeWhile isWordChar).length = rest.takeWhile isWordChar :=
      (List.prefix_iff_eq_take.mp (List.takeWhile_prefix _)).symm
    rw [htake] at hquote ⊢
    have hnone : c = '"' → '"' ∉ rest.takeWhile isWordChar ++ more := by
      intro hc hmem
      have hword : '"' ∉ rest.takeWhile isWordChar :=
        fun h => hopen hc ((List.takeWhile_prefix _).subset h)
      rcases List.mem_append.mp hmem with h | h
      · exact hword h
      · exact hquote hc hword h
    rw [lexeme?_of_word hfamily hbracket hnone, takeWhile_wordChar_append _ hmore,
      List.takeWhile_idem]

/-- Blanks behind a text change no lexeme of it. -/
theorem lexeme?_append_blanks {blanks : Text} (hblanks : ∀ c ∈ blanks, Text.isBlank c)
    (c : Char) (rest : Text) : lexeme? c (rest ++ blanks) = lexeme? c rest := by
  have hquote : quoteLength (rest ++ blanks) = quoteLength rest := by
    cases h : quoteLength rest with
    | none =>
        rw [quoteLength_eq_none] at h ⊢
        simp only [List.mem_append, not_or]
        exact ⟨h, fun hmem => absurd (hblanks _ hmem) (by decide)⟩
    | some n =>
        obtain ⟨hle, hsame⟩ := quoteLength_append h (rest.drop n ++ blanks)
        rwa [← List.append_assoc, List.take_append_drop] at hsame
  have hword : (rest ++ blanks).takeWhile isWordChar = rest.takeWhile isWordChar :=
    takeWhile_wordChar_append _ fun b hb => hblanks b (List.mem_of_mem_head? hb)
  have hclose : ∀ closer kind, family? c = some (closer, kind) →
      closeLength c closer 1 (rest ++ blanks) = closeLength c closer 1 rest := by
    intro closer kind hfamily
    apply closeLength_append_blanks _ hblanks
    unfold family? at hfamily
    split at hfamily
    · cases hfamily
      decide
    · cases hfamily
      decide
    · cases hfamily
  unfold lexeme?
  cases hfamily : family? c with
  | none => simp only [hquote, hword]
  | some family => simp only [hclose family.1 family.2 hfamily]

/-- Blanks behind a text do not change its tokens. -/
theorem texts_append_blanks {blanks : Text} (hblanks : ∀ c ∈ blanks, Text.isBlank c) (t : Text) :
    texts (t ++ blanks) = texts t := by
  induction t using texts_induction with
  | nil =>
      induction blanks with
      | nil => rfl
      | cons c rest ih =>
          rw [List.nil_append, texts_cons_blank rest (hblanks c List.mem_cons_self)]
          exact ih fun x hx => hblanks x (List.mem_cons_of_mem _ hx)
  | blank c rest hblank ih =>
      rw [List.cons_append, texts_cons_blank _ hblank, texts_cons_blank _ hblank, ih]
  | token c rest kind n hblank hlexeme ih =>
      have hle := lexeme?_length_le hlexeme
      have hsame : lexeme? c (rest ++ blanks) = some (kind, n) := by
        rw [lexeme?_append_blanks hblanks, hlexeme]
      rw [List.cons_append, texts_cons_token hblank hsame, texts_cons_token hblank hlexeme,
        List.take_append_of_le_length hle, List.drop_append_of_le_length hle, ih]
  | bracket c rest hblank hlexeme ih =>
      have hsame : lexeme? c (rest ++ blanks) = none := by
        rw [lexeme?_append_blanks hblanks, hlexeme]
      rw [List.cons_append, texts_cons_bracket hblank hsame, texts_cons_bracket hblank hlexeme, ih]

/-! ## Joining tokens -/

/-- The text is a single token, all of it. -/
def IsWhole (t : Text) : Prop :=
  ∃ c rest kind, t = c :: rest ∧ ¬ Text.isBlank c ∧ lexeme? c rest = some (kind, rest.length)

/-- The text opens with a double quote and holds no further one. -/
def LeavesQuoteOpen (t : Text) : Prop := t.head? = some '"' ∧ '"' ∉ t.tail

/-- Single tokens of which none could take a later one into a string. -/
structure Rejoinable (tokens : List Text) : Prop where
  whole : ∀ t ∈ tokens, IsWhole t
  quotes : tokens.Pairwise fun t later => LeavesQuoteOpen t → '"' ∉ later

theorem Rejoinable.sublist {kept tokens : List Text} (h : Rejoinable tokens)
    (hsublist : kept.Sublist tokens) : Rejoinable kept :=
  ⟨fun t ht => h.whole t (hsublist.subset ht), h.quotes.sublist hsublist⟩

/-- A single token is read off the front of a text if a blank follows it and no quote that it
leaves open is closed behind it. -/
theorem texts_append_of_isWhole {t more : Text} (hwhole : IsWhole t)
    (hmore : ∀ b ∈ more.head?, Text.isBlank b) (hquote : LeavesQuoteOpen t → '"' ∉ more) :
    texts (t ++ more) = t :: texts more := by
  obtain ⟨c, rest, kind, rfl, hblank, hlexeme⟩ := hwhole
  have hsame : lexeme? c (rest ++ more) = some (kind, rest.length) := by
    have happend := lexeme?_append hlexeme hmore fun hc hopen =>
      hquote ⟨by simp [hc], by simpa using hopen⟩
    rwa [List.take_length] at happend
  rw [List.cons_append, texts_cons_token hblank hsame]
  simp

theorem texts_of_isWhole {t : Text} (hwhole : IsWhole t) : texts t = [t] := by
  have happend : texts (t ++ []) = t :: texts [] :=
    texts_append_of_isWhole hwhole (by simp) (by simp)
  rwa [List.append_nil, texts_nil] at happend

/-- A text without blanks and brackets is a word, unless it opens with a double quote. -/
theorem isWhole_of_word {t : Text} (hne : t ≠ []) (hquote : t.head? ≠ some '"')
    (hword : ∀ c ∈ t, isWordChar c = true) : IsWhole t := by
  cases t with
  | nil => exact absurd rfl hne
  | cons c rest =>
      obtain ⟨hc, hrest⟩ := List.forall_mem_cons.mp hword
      simp only [isWordChar, Bool.and_eq_true, Bool.not_eq_true'] at hc
      have hfamily : family? c = none := by
        unfold family?
        split
        · cases hc.2
        · cases hc.2
        · rfl
      have hlexeme : lexeme? c rest = some (.word, (rest.takeWhile isWordChar).length) :=
        lexeme?_of_word hfamily hc.2 fun h => absurd (congrArg some h) hquote
      rw [List.takeWhile_eq_self_iff.mpr hrest] at hlexeme
      exact ⟨c, rest, .word, rfl, by simp [hc.1], hlexeme⟩

/-- Every code point of a token stands in the source. -/
theorem subset_of_mem_texts {source t : Text} (ht : t ∈ texts source) : t ⊆ source := by
  induction source using texts_induction with
  | nil => simp at ht
  | blank c rest hblank ih =>
      rw [texts_cons_blank rest hblank] at ht
      exact List.subset_cons_of_subset c (ih ht)
  | token c rest kind n hblank hlexeme ih =>
      rw [texts_cons_token hblank hlexeme] at ht
      rcases List.mem_cons.mp ht with rfl | ht
      · exact List.cons_subset_cons c (List.take_subset n rest)
      · exact List.subset_cons_of_subset c (List.Subset.trans (ih ht) (List.drop_subset n rest))
  | bracket c rest hblank hlexeme ih =>
      rw [texts_cons_bracket hblank hlexeme] at ht
      exact List.subset_cons_of_subset c (ih ht)

theorem isWhole_of_lexeme {c : Char} {rest : Text} {kind : Kind} {n : Nat}
    (hblank : ¬ Text.isBlank c) (hlexeme : lexeme? c rest = some (kind, n)) :
    IsWhole (c :: rest.take n) := by
  have hsame : lexeme? c (rest.take n ++ []) = some (kind, n) :=
    lexeme?_append hlexeme (by simp) (by simp)
  refine ⟨c, rest.take n, kind, rfl, hblank, ?_⟩
  rw [List.append_nil] at hsame
  rw [hsame, List.length_take, Nat.min_eq_left (lexeme?_length_le hlexeme)]

/-- Only a word leaves a quote open, and then none comes behind it in the source. -/
theorem lexeme?_of_leavesQuoteOpen {c : Char} {rest : Text} {kind : Kind} {n : Nat}
    (hlexeme : lexeme? c rest = some (kind, n)) (hopen : LeavesQuoteOpen (c :: rest.take n)) :
    kind = .word ∧ '"' ∉ rest := by
  obtain ⟨hc, hnot⟩ := hopen
  simp only [List.head?_cons, Option.some.injEq, List.tail_cons] at hc hnot
  subst hc
  rcases lexeme?_eq_some hlexeme with ⟨_, hfamily, _⟩ | ⟨_, _, _, _, hclosed⟩ | ⟨_, _, hkind, h, _⟩
  · simp [family?] at hfamily
  · have hagain := (quoteLength_append hclosed []).2
    rw [List.append_nil, quoteLength_eq_none.mpr hnot] at hagain
    cases hagain
  · exact ⟨hkind, h rfl⟩

theorem rejoinable_texts (source : Text) : Rejoinable (texts source) := by
  induction source using texts_induction with
  | nil => exact ⟨by simp, by simp⟩
  | blank c rest hblank ih =>
      rw [texts_cons_blank rest hblank]
      exact ih
  | token c rest kind n hblank hlexeme ih =>
      rw [texts_cons_token hblank hlexeme]
      refine ⟨?_, List.pairwise_cons.mpr ⟨?_, ih.quotes⟩⟩
      · intro t ht
        rcases List.mem_cons.mp ht with rfl | ht
        · exact isWhole_of_lexeme hblank hlexeme
        · exact ih.whole t ht
      · -- a later token is part of the source, and there no quote is left
        intro later hlater hopen hmem
        have hrest := (lexeme?_of_leavesQuoteOpen hlexeme hopen).2
        exact hrest (List.drop_subset n rest (subset_of_mem_texts hlater hmem))
  | bracket c rest hblank hlexeme ih =>
      rw [texts_cons_bracket hblank hlexeme]
      exact ih

/-- Joined by single blanks, the tokens are read back as they were. -/
theorem Rejoinable.texts_join {tokens : List Text} (h : Rejoinable tokens) :
    texts (Text.join [' '] tokens) = tokens := by
  induction tokens with
  | nil => exact texts_nil
  | cons t rest ih =>
      have hwhole := h.whole t List.mem_cons_self
      have hrest := ih (h.sublist (List.sublist_cons_self t rest))
      have hquotes := (List.pairwise_cons.mp h.quotes).1
      cases rest with
      | nil =>
          have hlast : texts (t ++ []) = t :: texts [] :=
            texts_append_of_isWhole hwhole (by simp) (by simp)
          simpa [Text.join] using hlast
      | cons next rest =>
          -- the blank ends the first token, and no later one closes a quote of its
          have hblank : Text.isBlank ' ' := by decide
          have hsplit : Text.join [' '] (t :: next :: rest) =
              t ++ (' ' :: Text.join [' '] (next :: rest)) := by simp [Text.join]
          rw [hsplit, texts_append_of_isWhole hwhole (by simpa using hblank),
            texts_cons_blank _ hblank, hrest]
          intro hopen
          rw [Text.join_cons]
          simpa using fun later hlater => hquotes later hlater hopen

end StackScript.Token
