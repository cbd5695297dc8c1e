import StackScript.Proofs.Token.Rejoin

/-! # Reading texts in a row

A text is closed if each of its brackets belongs to a token and no token leaves a quote open.
What stands behind a closed text and a blank is read as if it stood alone, and has no influence
on how the text before it is read.
-/

namespace StackScript.Token

/-- Blanks in front of a text are passed over. -/
theorem ofText_append_blanks {blanks : Text} (hblanks : ∀ c ∈ blanks, Text.isBlank c)
    (start : Nat) (t : Text) :
    Piece.ofText start (blanks ++ t) = Piece.ofText (start + blanks.length) t := by
  induction blanks generalizing start with
  | nil => rfl
  | cons c rest ih =>
      obtain ⟨hc, hrest⟩ := List.forall_mem_cons.mp hblanks
      rw [List.cons_append, Piece.ofText, if_pos hc, ih hrest, List.length_cons,
        Nat.add_assoc, Nat.add_comm 1]

/-! ## Closed texts -/

/-- The strict reading comes to the end exactly if all pieces are tokens. -/
theorem untilMisplaced_eq_none_iff {pieces : List Piece} :
    (untilMisplaced pieces).2 = none ↔
      pieces = (pieces.filterMap Piece.token?).map Piece.token := by
  induction pieces with
  | nil => simp [untilMisplaced]
  | cons piece rest ih =>
      cases piece with
      | token t => simpa [untilMisplaced, Piece.token?] using ih
      | bracket m =>
          refine iff_of_false (by simp [untilMisplaced]) fun h => ?_
          -- a bracket is in front on one side only
          have hmem : Piece.bracket m ∈ (rest.filterMap Piece.token?).map Piece.token :=
            h ▸ List.mem_cons_self
          obtain ⟨t, -, ht⟩ := List.mem_map.mp hmem
          cases ht

theorem untilMisplaced_tokens (tokens : List Token) :
    untilMisplaced (tokens.map Piece.token) = (tokens, none) := by
  induction tokens with
  | nil => rfl
  | cons t rest ih => rw [List.map_cons, untilMisplaced, ih]

theorem filterMap_tokens (tokens : List Token) :
    (tokens.map Piece.token).filterMap Piece.token? = tokens := by
  simp [List.filterMap_map, Function.comp_def, Piece.token?]

theorem readStrict_eq_none_iff {source : Text} :
    (readStrict source).2 = none ↔ Piece.ofText 0 source = (read source).map Piece.token :=
  untilMisplaced_eq_none_iff

/-- A text of tokens only is read alike by the strict and the lenient reading. -/
theorem readStrict_of_ofText {source : Text} {tokens : List Token}
    (htokens : Piece.ofText 0 source = tokens.map Piece.token) :
    read source = tokens ∧ readStrict source = (tokens, none) := by
  rw [read, readStrict, htokens]
  exact ⟨filterMap_tokens tokens, untilMisplaced_tokens tokens⟩

/-- A lexeme stays the same if a blank is written behind the text in which it begins, and if
nothing behind the blank closes a quote that it leaves open. -/
theorem lexeme?_append_of_blank {c : Char} {rest more : Text} {kind : Kind} {n : Nat}
    (hlexeme : lexeme? c rest = some (kind, n)) (hmore : ∀ b ∈ more.head?, Text.isBlank b)
    (hquote : LeavesQuoteOpen (c :: rest.take n) → '"' ∉ more) :
    lexeme? c (rest ++ more) = some (kind, n) := by
  have hsplit : rest ++ more = rest.take n ++ (rest.drop n ++ more) := by
    rw [← List.append_assoc, List.take_append_drop]
  rcases lexeme?_eq_some hlexeme with ⟨closer, hfamily, hclose⟩ | ⟨-, -, rfl, rfl, hclosed⟩ |
    ⟨hfamily, hbracket, rfl, hopen, rfl⟩
  · rw [hsplit]
    exact lexeme?_of_family hfamily (closeLength_append hclose _).2
  · rw [hsplit]
    exact lexeme?_of_quote (quoteLength_append hclosed _).2
  · have hnone : c = '"' → '"' ∉ rest ++ more := by
      rintro rfl
      have hrest := hopen rfl
      rw [List.mem_append, not_or]
      exact ⟨hrest, hquote ⟨rfl, fun hmem => hrest (List.take_subset _ _ hmem)⟩⟩
    rw [lexeme?_of_word hfamily hbracket hnone, takeWhile_wordChar_append _ hmore]

/-- What follows a text of tokens and begins with a blank is read from its own position on,
unless it closes a quote that one of the tokens leaves open. -/
theorem ofText_append {start : Nat} {t more : Text} {tokens : List Token}
    (htokens : Piece.ofText start t = tokens.map Piece.token)
    (hmore : ∀ b ∈ more.head?, Text.isBlank b)
    (hquotes : ∀ token ∈ tokens, LeavesQuoteOpen token.text → '"' ∉ more) :
    Piece.ofText start (t ++ more) =
      tokens.map Piece.token ++ Piece.ofText (start + t.length) more := by
  fun_induction Piece.ofText start t generalizing tokens with
  | case1 start =>
      rw [← htokens]
      rfl
  | case2 start c rest hblank ih =>
      rw [List.cons_append, Piece.ofText, if_pos hblank, ih htokens hquotes, List.length_cons,
        Nat.add_assoc, Nat.add_comm 1]
  | case3 start c rest hblank kind n hlexeme ih =>
      cases tokens with
      | nil => cases htokens
      | cons token tokens =>
          simp only [List.map_cons, List.cons.injEq, Piece.token.injEq] at htokens
          obtain ⟨rfl, htokens⟩ := htokens
          obtain ⟨hquote, hquotes⟩ := List.forall_mem_cons.mp hquotes
          have hfits := lexeme?_length_le hlexeme
          have hlength : start + 1 + n + (rest.drop n).length = start + (c :: rest).length := by
            rw [List.length_drop, List.length_cons]
            omega
          rw [List.cons_append, Piece.ofText, if_neg hblank,
            lexeme?_append_of_blank hlexeme hmore hquote]
          simp only [List.take_append_of_le_length hfits, List.drop_append_of_le_length hfits,
            ih htokens hquotes, hlength, List.map_cons, List.cons_append]
  | case4 start c rest hblank hlexeme ih =>
      -- a bracket is in front, so the text is not made of tokens
      cases tokens with
      | nil => cases htokens
      | cons token tokens => cases htokens

/-- Blanks behind a text of tokens separate it from what follows, unless that closes a quote which
one of the tokens leaves open. -/
theorem ofText_append_spaced {start : Nat} {t blanks more : Text} {tokens : List Token}
    (htokens : Piece.ofText start t = tokens.map Piece.token)
    (hne : blanks ≠ []) (hblanks : ∀ c ∈ blanks, Text.isBlank c)
    (hquotes : ∀ token ∈ tokens, LeavesQuoteOpen token.text → '"' ∉ more) :
    Piece.ofText start (t ++ blanks ++ more) =
      tokens.map Piece.token ++ Piece.ofText (start + t.length + blanks.length) more := by
  have hhead : ∀ b ∈ (blanks ++ more).head?, Text.isBlank b := by
    obtain ⟨first, rest, rfl⟩ := List.exists_cons_of_ne_nil hne
    simpa using hblanks first List.mem_cons_self
  have hopen : ∀ token ∈ tokens, LeavesQuoteOpen token.text → '"' ∉ blanks ++ more := by
    intro token htoken hopen
    rw [List.mem_append, not_or]
    exact ⟨fun hmem => absurd (hblanks _ hmem) (by decide), hquotes token htoken hopen⟩
  rw [List.append_assoc, ofText_append htokens hhead hopen, ofText_append_blanks hblanks]

/-- Every token begins where it is the lexeme. -/
theorem exists_lexeme_of_mem_read {source : Text} {t : Token} (ht : t ∈ read source) :
    ∃ c rest n, ¬ Text.isBlank c ∧ lexeme? c rest = some (t.kind, n) ∧
      t.text = c :: rest.take n := by
  revert ht
  rw [read]
  generalize 0 = start
  fun_induction Piece.ofText start source with
  | case1 => simp
  | case2 start c rest hblank ih => exact ih
  | case3 start c rest hblank kind n hlexeme ih =>
      intro ht
      rcases List.mem_cons.mp ht with rfl | ht
      · exact ⟨c, rest, n, hblank, hlexeme, rfl⟩
      · exact ih ht
  | case4 start c rest hblank hlexeme ih => exact ih

/-- If a strictly read text has no word that begins with a double quote, then blanks close it:
whatever follows them, balanced or not, the tokens are those of the text and, at their new
positions, those of what follows. -/
theorem read_append_of_closed {closed blanks : Text} (more : Text)
    (hclosed : (readStrict closed).2 = none)
    (hquotes : ∀ t ∈ read closed, t.kind = .word → t.text.head? ≠ some '"')
    (hne : blanks ≠ []) (hblanks : ∀ c ∈ blanks, Text.isBlank c) :
    read (closed ++ blanks ++ more) =
      read closed ++ (read more).map (shift (closed.length + blanks.length)) := by
  have hopen : ∀ t ∈ read closed, LeavesQuoteOpen t.text → '"' ∉ more := by
    intro t ht hopen
    obtain ⟨c, rest, n, -, hlexeme, htext⟩ := exists_lexeme_of_mem_read ht
    have hword : t.kind = .word := (lexeme?_of_leavesQuoteOpen hlexeme (htext ▸ hopen)).1
    exact absurd hopen.1 (hquotes t ht hword)
  rw [read, ofText_append_spaced (readStrict_eq_none_iff.mp hclosed) hne hblanks hopen,
    Nat.zero_add, List.filterMap_append, tokens_ofText, filterMap_tokens]

theorem read_append_of_closed_unbalanced :
    read ("[\x7b] a\"b \"c d\"".toList ++ [' '] ++ "] \x7b \"e [".toList) =
      [⟨.array, "[\x7b]".toList, 0⟩, ⟨.word, "a\"b".toList, 4⟩, ⟨.string, "\"c d\"".toList, 8⟩,
        ⟨.word, "\"e".toList, 18⟩] := by
  have hclosed : read "[\x7b] a\"b \"c d\"".toList =
      [⟨.array, "[\x7b]".toList, 0⟩, ⟨.word, "a\"b".toList, 4⟩,
        ⟨.string, "\"c d\"".toList, 8⟩] := by
    decide +kernel
  have hmore : (read "] \x7b \"e [".toList).map (shift 14) = [⟨.word, "\"e".toList, 18⟩] := by
    decide +kernel
  rw [read_append_of_closed "] \x7b \"e [".toList (by decide +kernel) (by rw [hclosed]; decide)
    (List.cons_ne_nil ' ' []) (by simp [Text.isBlank]), hclosed]
  exact congrArg (_ ++ ·) hmore

end StackScript.Token
