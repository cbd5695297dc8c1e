import StackScript.Text.Basic

/-! # Integer numerals

Integers are written in decimal. Conversions in either direction stop at a fixed number of
digits, so that a program cannot stall on a numeral of unreasonable length; leading zeros
count and the sign does not.
-/

namespace StackScript.Numeral

/-- Numerals with more digits than this are not converted. -/
def digitLimit : Nat := 4300

/-- The decimal digits of a natural number, without leading zeros. -/
def ofNat (n : Nat) : Text := Nat.toDigits 10 n

/-- The decimal numeral of an integer of any size. -/
def ofInt (n : Int) : Text :=
  if n < 0 then '-' :: ofNat n.natAbs else ofNat n.natAbs

/-- Has the integer too many digits to be written? -/
def isTooLong (n : Int) : Bool := Nat.pow 10 digitLimit ≤ n.natAbs

/-- The number that a run of ASCII digits stands for. -/
def natValue (digits : Text) : Nat := Nat.ofDigitChars 10 digits 0

/-- Splits a numeral into "is it negative" and what follows the sign. -/
def splitSign : Text → Bool × Text
  | '-' :: rest => (true, rest)
  | '+' :: rest => (false, rest)
  | t => (false, t)

/-- The number that a sign and digits stand for. -/
def intValue (t : Text) : Int :=
  let (negative, digits) := splitSign t
  if negative then -(natValue digits : Int) else natValue digits

end StackScript.Numeral
