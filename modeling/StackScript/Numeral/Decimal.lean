import StackScript.Numeral.Shortest
import StackScript.Text.Digit

/-! # Decimal numerals of doubles

Writing: positional notation for numbers from `10 ^ -4` up to `10 ^ 16`, else an exponent of
at least two digits. Reading: any decimal numeral, rounded to the nearest double, with blanks
around it, single underscores between digits, digits of every script, and words for the
infinities and for what is not a number.
-/

namespace StackScript.Numeral

/-- The digits with the decimal point after the first `point` of them, and with one digit at
least on either side. -/
def positional (digits : Text) (point : Int) : Text :=
  let count := point.toNat
  if point ≤ 0 then '0' :: '.' :: List.replicate (-point).toNat '0' ++ digits
  else if digits.length ≤ count then
    digits ++ List.replicate (count - digits.length) '0' ++ ['.', '0']
  else digits.take count ++ '.' :: digits.drop count

/-- The digits with the point after the first one, and the power of ten. -/
def scientific (digits : Text) (exponent : Int) : Text :=
  let fraction := if digits.length ≤ 1 then [] else '.' :: digits.drop 1
  let size := ofNat exponent.natAbs
  let padded := if size.length < 2 then '0' :: size else size
  digits.take 1 ++ fraction ++ 'e' :: (if exponent < 0 then '-' else '+') :: padded

/-- The digits of a decimal without the zeros that close them. -/
def significantDigits (n : Nat) : Text :=
  ((ofNat n).reverse.dropWhile (· == '0')).reverse

/-- The written form of a double. -/
def ofFloat (x : Float) : Text :=
  let sign (negative : Bool) (t : Text) : Text := if negative then '-' :: t else t
  match Binary64.parts x with
  | .nan => "nan".toList
  | .infinite negative => sign negative "inf".toList
  | .finite negative 0 _ => sign negative "0.0".toList
  | .finite negative significand exponent =>
      let decimal := Binary64.shortest significand exponent
      let digits := significantDigits decimal.digits
      let point := (ofNat decimal.digits).length + decimal.exponent
      sign negative <|
        if -4 < point && point ≤ 16 then positional digits point
        else scientific digits (point - 1)

/-- `± digits * 10 ^ exponent`, rounded to the nearest double. Far outside the range of the
doubles the result is known without computing the power. -/
def decimalValue (negative : Bool) (digits : Text) (exponent : Int) : Float :=
  let n := natValue digits
  let size := (ofNat n).length + exponent
  if n = 0 || size < -330 then Binary64.withSign negative 0
  else if 310 < size then Binary64.withSign negative Binary64.infinity
  else Binary64.nearest negative (n * Nat.pow 10 exponent.toNat) (Nat.pow 10 (-exponent).toNat)

/-- Cuts the longest run of ASCII digits off the front of a text. -/
def spanDigits (t : Text) : Text × Text := (t.takeWhile Char.isDigit, t.dropWhile Char.isDigit)

/-- The parts of an unsigned decimal numeral: digits before and after the point, and the
power of ten. -/
structure Layout where
  whole : Text
  fraction : Text
  exponent : Int
  deriving DecidableEq, Repr

/-- An exponent mark, a sign and digits, or nothing at all. -/
def readExponent? : Text → Option Int
  | [] => some 0
  | c :: rest =>
      let (negative, digits) := splitSign rest
      if (c == 'e' || c == 'E') && !digits.isEmpty && digits.all Char.isDigit then
        some (if negative then -(natValue digits : Int) else natValue digits)
      else none

/-- Reads an unsigned decimal numeral: digits on at least one side of the point, and an
optional exponent. -/
def readLayout? (t : Text) : Option Layout :=
  let (whole, rest) := spanDigits t
  let (fraction, rest) := match rest with
    | '.' :: rest => spanDigits rest
    | _ => ([], rest)
  if whole.isEmpty && fraction.isEmpty then none
  else (readExponent? rest).map fun exponent => ⟨whole, fraction, exponent⟩

/-- The double that a sign and a layout stand for. -/
def Layout.value (negative : Bool) (l : Layout) : Float :=
  decimalValue negative (l.whole ++ l.fraction) (l.exponent - l.fraction.length)

/-- Drops underscores that stand between two digits; any other underscore spoils the text.
`afterDigit` tells whether a digit came just before. -/
def dropUnderscores (afterDigit : Bool) : Text → Option Text
  | [] => some []
  | '_' :: c :: rest =>
      if afterDigit && c.isDigit then (dropUnderscores true rest).map (c :: ·) else none
  | c :: rest =>
      if c == '_' then none else (dropUnderscores c.isDigit rest).map (c :: ·)

/-- Writes the decimal digits of every script as ASCII digits. -/
def asciiDigits (t : Text) : Text :=
  t.map fun c => match Text.decimalValue? c with
    | some d => Nat.digitChar d
    | none => c

/-- The blanks that may stand around a decimal numeral: all but the four separators for
files, groups, records and units. -/
def isNumeralBlank (c : Char) : Bool := Text.isBlank c && !('\x1c' ≤ c && c ≤ '\x1f')

/-- A spelling without its freedoms: no blanks around it, no underscores, ASCII digits. -/
def plainSpelling? (t : Text) : Option Text :=
  dropUnderscores false (asciiDigits (Text.trimBy isNumeralBlank t))

/-- Reads an integer in any of its spellings, up to the digit limit. -/
def readInt? (t : Text) : Option Int :=
  match plainSpelling? t with
  | none => none
  | some plain =>
      let digits := (splitSign plain).2
      if digits.isEmpty || !digits.all Char.isDigit || digitLimit < digits.length then none
      else some (intValue plain)

/-- Reads a decimal numeral in any of its spellings. -/
def readFloat? (t : Text) : Option Float :=
  match plainSpelling? t with
  | none => none
  | some plain =>
      let (negative, unsigned) := splitSign plain
      let word := Text.lower unsigned
      if word == "inf".toList || word == "infinity".toList then
        some (Binary64.withSign negative Binary64.infinity)
      else if word == "nan".toList then some Binary64.notANumber
      else (readLayout? unsigned).map (Layout.value negative)

/-! Written and read doubles at the edges of the notations. -/

example : ofFloat 0.1 = "0.1".toList := by decide +kernel

example : ofFloat 1e15 = "1000000000000000.0".toList := by decide +kernel

example : ofFloat 1e16 = "1e+16".toList := by decide +kernel

example : ofFloat 0.0001 = "0.0001".toList := by decide +kernel

example : ofFloat 0.00001 = "1e-05".toList := by decide +kernel

example : ofFloat (Float.ofBits 1) = "5e-324".toList := by decide +kernel

example : readFloat? " 1_0.5e1\n".toList = some 105 := by decide +kernel

example : readFloat? "1e400".toList = some Binary64.infinity := by decide +kernel

example : readFloat? "1_e5".toList = none := by decide +kernel

end StackScript.Numeral
