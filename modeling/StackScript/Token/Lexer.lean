import StackScript.Token.Basic

/-! # Cutting a text into tokens

A text is cut into pieces from left to right: tokens, and brackets that belong to no token.
The lenient reading leaves those brackets out; the strict one stops at the first of them.
-/

namespace StackScript

namespace Token

/-- The closing bracket that goes with an opening one, and the kind of token they make. -/
def family? : Char → Option (Char × Kind)
  | '{' => some ('}', .block)
  | '[' => some (']', .array)
  | _ => none

/-- The brackets of both families. -/
def isBracket (c : Char) : Bool := c == '{' || c == '}' || c == '[' || c == ']'

/-- The code points that a word is made of. -/
def isWordChar (c : Char) : Bool := !Text.isBlank c && !isBracket c

/-- How many code points it takes to close `depth` open brackets. Only brackets of one family
count: those of the other may stand anywhere. -/
def closeLength (opener closer : Char) : (depth : Nat) → Text → Option Nat
  | 0, _ => some 0
  | _ + 1, [] => none
  | depth + 1, c :: rest =>
      let depth :=
        if c == opener then depth + 2 else if c == closer then depth else depth + 1
      (closeLength opener closer depth rest).map (· + 1)

/-- How many code points it takes to come just behind the next double quote. -/
def quoteLength : Text → Option Nat
  | [] => none
  | c :: rest => if c == '"' then some 1 else (quoteLength rest).map (· + 1)

/-- The token that begins with `c`, as its kind and the number of its further code points.
A bracket that opens no balanced stretch begins no token. A double quote that is never closed
is an ordinary code point of a word. -/
def lexeme? (c : Char) (rest : Text) : Option (Kind × Nat) :=
  match family? c with
  | some (closer, kind) => (closeLength c closer 1 rest).map fun n => (kind, n)
  | none =>
      if isBracket c then none
      else
        let word := (Kind.word, (rest.takeWhile isWordChar).length)
        if c == '"' then some (((quoteLength rest).map fun n => (Kind.string, n)).getD word)
        else some word

/-- The bracket `c` at position `start`, before `rest`, belongs to no token. -/
def misplaced (c : Char) (start : Nat) (rest : Text) : Misplaced :=
  match family? c with
  | some _ => ⟨.unbalanced c, start, start + 1 + rest.length, c :: rest⟩
  | none => ⟨.unmatched c, start, start + 1, [c]⟩

end Token

/-- What a source text is cut into. -/
inductive Piece where
  | token (token : Token)
  /-- A bracket that belongs to no token. -/
  | bracket (misplaced : Misplaced)
  deriving DecidableEq, Repr

namespace Piece

/-- The pieces of a text whose first code point stands at position `start`. -/
def ofText (start : Nat) : Text → List Piece
  | [] => []
  | c :: rest =>
      if Text.isBlank c then ofText (start + 1) rest
      else match Token.lexeme? c rest with
        | some (kind, n) =>
            .token ⟨kind, c :: rest.take n, start⟩ :: ofText (start + 1 + n) (rest.drop n)
        | none => .bracket (Token.misplaced c start rest) :: ofText (start + 1) rest
termination_by t => t.length
decreasing_by all_goals simp only [List.length_cons, List.length_drop]; omega

/-- The piece as a token. -/
def token? : Piece → Option Token
  | .token t => some t
  | .bracket _ => none

/-- The piece as a bracket that belongs to no token. -/
def misplaced? : Piece → Option Misplaced
  | .token _ => none
  | .bracket m => some m

end Piece

namespace Token

/-- The tokens of a text. Brackets that belong to no token are left out. -/
def read (source : Text) : List Token := (Piece.ofText 0 source).filterMap Piece.token?

/-- The brackets of a text that belong to no token. -/
def misplacedBrackets (source : Text) : List Misplaced :=
  (Piece.ofText 0 source).filterMap Piece.misplaced?

/-- The tokens before the first bracket that belongs to none, and that bracket. -/
def untilMisplaced : List Piece → List Token × Option Misplaced
  | [] => ([], none)
  | .token t :: rest =>
      let (tokens, stop) := untilMisplaced rest
      (t :: tokens, stop)
  | .bracket m :: _ => ([], some m)

/-- The strict reading: the tokens of a text up to the first bracket that belongs to none,
and that bracket if there is one. -/
def readStrict (source : Text) : List Token × Option Misplaced :=
  untilMisplaced (Piece.ofText 0 source)

/-- The texts of the tokens, which is what evaluation needs. -/
def texts (source : Text) : List Text := (read source).map Token.text

/-- The position behind the stretch that the bracket at `start` opens. -/
def bracketedEnd (source : Text) (start : Nat) : Except Misplaced Nat :=
  match source.drop start with
  | [] => .ok start
  | c :: rest =>
      match (family? c).bind fun family => closeLength c family.1 1 rest with
      | some n => .ok (start + 1 + n)
      | none => .error (misplaced c start rest)

/-- The position behind the string that begins at `start`. -/
def stringEnd (source : Text) (start : Nat) : Except Misplaced Nat :=
  match source.drop start with
  | '"' :: rest =>
      match quoteLength rest with
      | some n => .ok (start + 1 + n)
      | none => .error ⟨.unterminatedString, start, source.length, '"' :: rest⟩
  | rest => .error ⟨.expectedString, start, start + 1, rest.take 1⟩

/-- The position behind the word that begins at `start`. -/
def wordEnd (source : Text) (start : Nat) : Nat :=
  start + ((source.drop start).takeWhile isWordChar).length

end Token

example : Token.texts "a [1 \x7b] ] \"b c\" \"d".toList =
    ["a".toList, "[1 \x7b]".toList, "\"b c\"".toList, "\"d".toList] := by decide +kernel

end StackScript
