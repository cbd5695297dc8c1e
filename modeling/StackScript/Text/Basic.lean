/-! # Texts

Programs, tokens and written values are texts: sequences of code points. Every
position, length and cut in this library counts code points.
-/

namespace StackScript

/-- A sequence of code points. -/
abbrev Text := List Char

namespace Text

/-- The code points that separate words and are trimmed from the ends of a text. -/
def isBlank (c : Char) : Bool :=
  ('\t' ≤ c && c ≤ '\r') || ('\x1c' ≤ c && c ≤ ' ') || c == '\u0085' || c == '\u00a0'
    || c == '\u1680' || ('\u2000' ≤ c && c ≤ '\u200a') || c == '\u2028' || c == '\u2029'
    || c == '\u202f' || c == '\u205f' || c == '\u3000'

/-- Removes from both ends what `drop` accepts. -/
def trimBy (drop : Char → Bool) (t : Text) : Text :=
  ((t.dropWhile drop).reverse.dropWhile drop).reverse

/-- Removes the blanks at both ends. -/
def trim (t : Text) : Text := trimBy isBlank t

/-- Does the text open with `first` and close with `last`? One code point can do both. -/
def isDelimited (first last : Char) (t : Text) : Bool :=
  t.head? == some first && t.getLast? == some last

/-- The text without its first and its last code point. -/
def inner (t : Text) : Text := t.tail.dropLast

/-- Drops a single line feed that closes the text. Patterns for numerals, strings and
parameters all allow one. -/
def dropFinalLineFeed (t : Text) : Text :=
  if t.getLast? == some '\n' then t.dropLast else t

/-- Folds letter case. Only the ASCII capitals and the Kelvin sign have a lower case
among the ASCII letters, which are all that any comparison here looks for. -/
def lower (t : Text) : Text :=
  t.map fun c => if c == '\u212a' then 'k' else c.toLower

/-- Does `word` occur anywhere in the text? -/
def mentions (word : Text) : Text → Bool
  | [] => word.isEmpty
  | c :: rest => word.isPrefixOf (c :: rest) || mentions word rest

/-- The texts in order, with `separator` between neighbours. -/
def join (separator : Text) : List Text → Text
  | [] => []
  | [t] => t
  | t :: rest => t ++ separator ++ join separator rest

theorem join_cons (separator t : Text) (rest : List Text) :
    join separator (t :: rest) = t ++ rest.flatMap (separator ++ ·) := by
  induction rest generalizing t with
  | nil => simp [join]
  | cons next rest ih =>
      rw [join, ih next]
      · simp
      · simp

/-- What stands before the first `mark` and what stands after it, if there is one. -/
def cutAt (mark : Char) (t : Text) : Option (Text × Text) :=
  match t.dropWhile (· != mark) with
  | [] => none
  | _ :: rest => some (t.takeWhile (· != mark), rest)

end Text

end StackScript
