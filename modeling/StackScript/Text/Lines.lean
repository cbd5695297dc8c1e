import StackScript.Text.Basic

/-! # Lines

A source text is read line by line. A line ends at a line break or at the end of the
text; a carriage return with the line feed after it is a single break, and a break at
the very end opens no further line.
-/

namespace StackScript.Text

/-- The code points that end a line. -/
def isLineBreak (c : Char) : Bool :=
  ('\n' ≤ c && c ≤ '\r') || ('\x1c' ≤ c && c ≤ '\x1e') || c == '\u0085'
    || c == '\u2028' || c == '\u2029'

/-- The lines of a text, without the breaks that end them. -/
def lines : Text → List Text
  | [] => []
  | '\r' :: '\n' :: rest => [] :: lines rest
  | c :: rest =>
      if isLineBreak c then [] :: lines rest
      else match lines rest with
        | [] => [[c]]
        | line :: more => (c :: line) :: more

/-- Writes every carriage return, alone or before a line feed, as one line feed. -/
def unifyLineFeeds : Text → Text
  | [] => []
  | '\r' :: '\n' :: rest => '\n' :: unifyLineFeeds rest
  | c :: rest => (if c == '\r' then '\n' else c) :: unifyLineFeeds rest

theorem lines_cons {c : Char} {rest : Text} (hc : c ≠ '\r') :
    lines (c :: rest) =
      if isLineBreak c then [] :: lines rest
      else match lines rest with
        | [] => [[c]]
        | line :: more => (c :: line) :: more := by
  rw [lines]
  rintro _ rfl
  exact absurd rfl hc

/-- However its lines end, a text has the same lines. -/
theorem lines_unifyLineFeeds (t : Text) : lines (unifyLineFeeds t) = lines t := by
  fun_induction unifyLineFeeds t with
  | case1 => rfl
  | case2 rest ih => rw [lines_cons (by decide), if_pos (by decide), ih, lines]
  | case3 c rest hpair ih =>
      split
      next hc =>
        obtain rfl := beq_iff_eq.mp hc
        rw [lines_cons (by decide), if_pos (by decide), ih, lines, if_pos (by decide)]
        exact fun more _ hmore => hpair more rfl hmore
      next hc =>
        have hc : c ≠ '\r' := by simpa using hc
        rw [lines_cons hc, lines_cons hc, ih]

example : lines "a\r\nb\n\nc\n".toList = ["a".toList, "b".toList, [], "c".toList] := by decide

end StackScript.Text
