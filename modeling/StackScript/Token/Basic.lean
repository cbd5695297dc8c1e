import StackScript.Text.Quoted

/-! # Tokens

A token is a stretch of a source text: a block in braces, an array in brackets, a string in
double quotes, or a word, which ends before the next blank or bracket.
-/

namespace StackScript

/-- The four kinds of tokens. -/
inductive Token.Kind where
  | block
  | array
  | string
  | word
  deriving DecidableEq, Repr

/-- A stretch of a source text that begins at position `start`. -/
structure Token where
  kind : Token.Kind
  text : Text
  start : Nat
  deriving DecidableEq, Repr

/-- The position just behind a token. -/
def Token.stop (token : Token) : Nat := token.start + token.text.length

/-- The name of a kind of tokens. -/
def Token.Kind.name : Token.Kind → String
  | .block => "BLOCK"
  | .array => "ARRAY"
  | .string => "STRING"
  | .word => "WORD"

/-- Why a stretch of a text is no token. -/
inductive Misplaced.Reason where
  /-- An opening bracket that is never closed. -/
  | unbalanced (opener : Char)
  /-- A closing bracket that closes nothing. -/
  | unmatched (closer : Char)
  /-- A string is looked for where no double quote stands. -/
  | expectedString
  | unterminatedString
  deriving DecidableEq, Repr

/-- The stretch from `start` to `stop`, which holds `found`, is no token. -/
structure Misplaced where
  reason : Misplaced.Reason
  start : Nat
  stop : Nat
  found : Text
  deriving DecidableEq, Repr

/-- The reason in words. -/
def Misplaced.Reason.message : Misplaced.Reason → String
  | .unbalanced opener => s!"Unbalanced {Text.display [opener]}"
  | .unmatched closer => s!"Unmatched {Text.display [closer]}"
  | .expectedString => "Expected string literal"
  | .unterminatedString => "Unterminated string literal"

/-- The reason, where it holds and what stands there. -/
def Misplaced.message (m : Misplaced) : String :=
  s!"{m.reason.message} at span [{m.start}, {m.stop}); found {Text.display m.found}"

end StackScript
