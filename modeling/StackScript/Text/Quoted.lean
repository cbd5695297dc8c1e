import StackScript.Text.Printable

/-! # Quoted texts

Messages show a text between quotation marks, with everything escaped that could not be
read off the page. The marks are single unless the text holds a single one and no double
one.
-/

namespace StackScript.Text

/-- A number in hexadecimal, padded with zeros to `width` places. -/
def hexDigits (width n : Nat) : Text :=
  let digits := Nat.toDigits 16 n
  List.replicate (width - digits.length) '0' ++ digits

/-- One code point as it stands between the quotation marks `mark`. -/
def escape (mark c : Char) : Text :=
  if c == mark || c == '\\' then ['\\', c]
  else if c == '\t' then ['\\', 't']
  else if c == '\n' then ['\\', 'n']
  else if c == '\r' then ['\\', 'r']
  else if isPrintable c then [c]
  else if c.toNat < 0x100 then '\\' :: 'x' :: hexDigits 2 c.toNat
  else if c.toNat < 0x10000 then '\\' :: 'u' :: hexDigits 4 c.toNat
  else '\\' :: 'U' :: hexDigits 8 c.toNat

/-- The mark that needs the fewest escapes. -/
def quotationMark (t : Text) : Char :=
  if t.contains '\'' && !t.contains '"' then '"' else '\''

/-- The text between quotation marks. -/
def quoted (t : Text) : Text :=
  let mark := quotationMark t
  mark :: t.flatMap (escape mark) ++ [mark]

/-- The quoted text, for use in a message. -/
def display (t : Text) : String := String.ofList (quoted t)

example : quoted "a\n".toList = "'a\\n'".toList := by decide

example : quoted ['i', 't', '\'', 's'] = ['"', 'i', 't', '\'', 's', '"'] := by decide

/-! ## Halves of surrogate pairs -/

/-- The code point that stands for half of a surrogate pair. -/
def standIn (half : Nat) : Char := Char.ofNat (half + 0x102000)

/-- The half of a surrogate pair that a code point stands for, if it stands for one. -/
def half? (c : Char) : Option Nat :=
  if 0x10f800 ≤ c.toNat then some (c.toNat - 0x102000) else none

/-- The text between quotation marks, with what stands for half of a surrogate pair shown as that
half. -/
def shown (t : Text) : Text :=
  let mark := quotationMark t
  let code (c : Char) : Text := match half? c with
    | some half => '\\' :: 'u' :: hexDigits 4 half
    | none => escape mark c
  mark :: t.flatMap code ++ [mark]

end StackScript.Text
