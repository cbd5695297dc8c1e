import StackScript.Proofs.Token.Append

/-! # Tokens spaced anew

Where the tokens of a source end is settled within them. Any of them, in their order, may be
written with other blanks between: they are read as the same tokens, and nothing is left over.
-/

namespace StackScript

/-- The text is made of the given ones in their order, with one blank or more between
neighbours. -/
inductive Text.IsSpaced : List Text → Text → Prop
  | nil : IsSpaced [] []
  | single (t : Text) : IsSpaced [t] t
  | cons (t : Text) {blanks next joined : Text} {rest : List Text} (hne : blanks ≠ [])
      (hblanks : ∀ c ∈ blanks, isBlank c) (hrest : IsSpaced (next :: rest) joined) :
      IsSpaced (t :: next :: rest) (t ++ blanks ++ joined)

namespace Text

theorem isSpaced_join (texts : List Text) : IsSpaced texts (join [' '] texts) := by
  induction texts with
  | nil => exact .nil
  | cons t rest ih =>
      cases rest with
      | nil => exact .single t
      | cons next rest => exact .cons t (List.cons_ne_nil ' ' []) (by simp [isBlank]) ih

/-- Nothing but blanks is added. -/
theorem IsSpaced.not_mem {texts : List Text} {joined : Text} (hspaced : IsSpaced texts joined)
    {c : Char} (hc : ¬ isBlank c) (hnone : ∀ t ∈ texts, c ∉ t) : c ∉ joined := by
  induction hspaced with
  | nil => exact List.not_mem_nil
  | single t => exact hnone t (List.mem_singleton_self t)
  | cons t hne hblanks hrest ih =>
      obtain ⟨hfirst, hlater⟩ := List.forall_mem_cons.mp hnone
      simp only [List.mem_append, not_or]
      exact ⟨⟨hfirst, fun hmem => hc (hblanks c hmem)⟩, ih hlater⟩

end Text

namespace Token

/-- The kind and the text of a token, which is all of it but its position. -/
def form (t : Token) : Kind × Text := (t.kind, t.text)

/-- The text of a token is cut into that token alone. -/
theorem ofText_text_of_mem_read {source : Text} {t : Token} (ht : t ∈ read source) (start : Nat) :
    Piece.ofText start t.text = [(⟨t.kind, t.text, start⟩ : Token)].map Piece.token := by
  obtain ⟨c, rest, n, hblank, hlexeme, htext⟩ := exists_lexeme_of_mem_read ht
  have halone : lexeme? c (rest.take n ++ []) = some (t.kind, n) :=
    lexeme?_append hlexeme (by simp) (by simp)
  rw [List.append_nil] at halone
  rw [htext, Piece.ofText, if_neg hblank, halone]
  simp [Piece.ofText, List.take_take]

/-- No token of a source that leaves a quote open stands before a double quote. -/
theorem pairwise_read (source : Text) :
    (read source).Pairwise fun t later => LeavesQuoteOpen t.text → '"' ∉ later.text :=
  List.pairwise_map.mp (rejoinable_texts source).quotes

/-- Some tokens of a source, spaced anew, are cut into tokens of the same forms and nothing
else. -/
theorem ofText_of_isSpaced {source joined : Text} {tokens : List Token}
    (htokens : tokens.Sublist (read source)) (hspaced : Text.IsSpaced (tokens.map text) joined)
    (start : Nat) :
    ∃ again : List Token,
      Piece.ofText start joined = again.map Piece.token ∧ again.map form = tokens.map form := by
  induction tokens generalizing joined start with
  | nil =>
      cases hspaced
      exact ⟨[], by simp [Piece.ofText], rfl⟩
  | cons t rest ih =>
      have hfirst := ofText_text_of_mem_read (htokens.subset List.mem_cons_self) start
      cases rest with
      | nil =>
          cases hspaced
          exact ⟨[⟨t.kind, t.text, start⟩], hfirst, rfl⟩
      | cons next rest =>
          obtain ⟨hquotes, -⟩ := List.pairwise_cons.mp ((pairwise_read source).sublist htokens)
          rw [List.map_cons, List.map_cons] at hspaced
          cases hspaced with
          | @cons _ blanks _ behind _ hne hblanks hspaced =>
              obtain ⟨again, hagain, hforms⟩ :=
                ih ((List.sublist_cons_self t _).trans htokens) hspaced
                  (start + t.text.length + blanks.length)
              -- a quote behind the token would be part of a later one
              have hbehind (hopen : LeavesQuoteOpen t.text) : '"' ∉ behind := by
                refine hspaced.not_mem (by decide) fun later hlater => ?_
                rw [← List.map_cons, List.mem_map] at hlater
                obtain ⟨u, hu, rfl⟩ := hlater
                exact hquotes u hu hopen
              refine ⟨⟨t.kind, t.text, start⟩ :: again, ?_, ?_⟩
              · rw [ofText_append_spaced hfirst hne hblanks (by simpa using hbehind), hagain]
                rfl
              · rw [List.map_cons, List.map_cons, hforms]
                rfl

/-- Tokens of a source, any of them in their order, are read back as they were, by the strict
reading too, whatever blanks they are joined by. So the token texts of a source, joined by single
blanks, are cut where they were joined, and the text of each token is that token alone. -/
theorem read_respaced (source : Text) :
    (∀ (tokens : List Token) (joined : Text), tokens.Sublist (read source) →
      Text.IsSpaced (tokens.map text) joined →
      readStrict joined = (read joined, none) ∧ (read joined).map form = tokens.map form) ∧
    texts (Text.join [' '] (texts source)) = texts source ∧
    ∀ t ∈ read source, read t.text = [⟨t.kind, t.text, 0⟩] := by
  have hspaced (tokens : List Token) (joined : Text) (hsublist : tokens.Sublist (read source))
      (hjoined : Text.IsSpaced (tokens.map text) joined) :
      readStrict joined = (read joined, none) ∧ (read joined).map form = tokens.map form := by
    obtain ⟨again, hagain, hforms⟩ := ofText_of_isSpaced hsublist hjoined 0
    obtain ⟨hread, hstrict⟩ := readStrict_of_ofText hagain
    rw [hread]
    exact ⟨hstrict, hforms⟩
  refine ⟨hspaced, ?_, fun t ht => ?_⟩
  · have hforms := (hspaced (read source) _ (List.Sublist.refl _) (Text.isSpaced_join _)).2
    simpa [texts, List.map_map, Function.comp_def, form] using congrArg (List.map Prod.snd) hforms
  · exact (readStrict_of_ofText (ofText_text_of_mem_read ht 0)).1

theorem read_respaced_unclosed :
    let joined := "\"b c\"".toList ++ "\t ".toList ++ ("\x7b[\x7d".toList ++ ['\n'] ++ "\"d".toList)
    readStrict joined = (read joined, none) ∧
      (read joined).map form =
        [(.string, "\"b c\"".toList), (.block, "\x7b[\x7d".toList), (.word, "\"d".toList)] := by
  have hsource : read "\"b c\"1\x7b[\x7d] \"d".toList =
      [⟨.string, "\"b c\"".toList, 0⟩, ⟨.word, ['1'], 5⟩, ⟨.block, "\x7b[\x7d".toList, 6⟩,
        ⟨.word, "\"d".toList, 11⟩] := by
    decide +kernel
  exact (read_respaced "\"b c\"1\x7b[\x7d] \"d".toList).1
    [⟨.string, "\"b c\"".toList, 0⟩, ⟨.block, "\x7b[\x7d".toList, 6⟩, ⟨.word, "\"d".toList, 11⟩]
    _ (by rw [hsource]; decide)
    (.cons _ (List.cons_ne_nil _ _) (by simp [Text.isBlank])
      (.cons _ (List.cons_ne_nil _ _) (by simp [Text.isBlank]) (.single _)))

end Token

end StackScript
