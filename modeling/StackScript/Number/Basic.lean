import StackScript.Fault
import StackScript.Numeral.Decimal

/-! # Numbers

A number is an integer of any size or a double. Results are normalized: a double without a
fraction becomes the integer that it equals, so that a computed number is a double only if
no integer has its value.
-/

namespace StackScript

/-- An integer of any size or a double. -/
inductive Number where
  | int (n : Int)
  | float (x : Float)
  deriving DecidableEq

namespace Number

/-- Turns an integral double into an integer. -/
def normalize : Number → Number
  | .float x =>
      if Binary64.isIntegral x then
        match Binary64.truncate? x with
        | some n => .int n
        | none => .float x
      else .float x
  | n => n

/-- The number as a double. -/
def toFloat : Number → Except Fault Float
  | .float x => .ok x
  | .int n =>
      match Binary64.ofInt? n with
      | some x => .ok x
      | none => .error .tooLargeForDouble

/-- The number without its fraction. -/
def toInt : Number → Except Fault Int
  | .int n => .ok n
  | .float x =>
      match Binary64.truncate? x with
      | some n => .ok n
      | none => .error (if x.isNaN then .undefinedCount else .infiniteCount)

/-- The magnitude of a number. -/
def abs : Number → Number
  | .int n => .int n.natAbs
  | .float x => .float (Binary64.withSign false x)

/-- The written form of an integer. -/
def writeInt (n : Int) : Except Fault Text :=
  if Numeral.isTooLong n then .error .integerTooLong else .ok (Numeral.ofInt n)

/-- The number exactly as it is stored, for messages. -/
def inspect : Number → Except Fault Text
  | .int n => writeInt n
  | .float x => .ok (Numeral.ofFloat x)

/-- The written form of a number, which is normalized first. -/
def write (n : Number) : Except Fault Text := n.normalize.inspect

/-- The name of a number's representation in messages. -/
def representation : Number → String
  | .int _ => "int"
  | .float _ => "float"

/-- Is the text an optional sign and decimal digits, with at most one point among or around
them and possibly an exponent? A line feed may close it. -/
def isNumeral (t : Text) : Bool :=
  (Numeral.readLayout? (Numeral.splitSign (Text.dropFinalLineFeed t)).2).isSome

/-- Is the text the numeral of an integer: decimal digits after an optional minus sign? -/
def isIntegerNumeral (t : Text) : Bool :=
  let digits := match Text.dropFinalLineFeed t with
    | '-' :: rest => rest
    | rest => rest
  !digits.isEmpty && digits.all Char.isDigit

/-- Reads a sign and digits as an integer. -/
def readInt (t : Text) : Except Fault Int :=
  let digits := (Numeral.splitSign t).2.length
  if Numeral.digitLimit < digits then .error (.numeralTooLong digits)
  else .ok (Numeral.intValue t)

/-- Reads a text as a number: as an integer if it is the numeral of one, else as a double
that is then normalized. Other texts have no number. -/
def read? (t : Text) : Except Fault (Option Number) :=
  if isIntegerNumeral t then
    (readInt (Text.dropFinalLineFeed t)).map fun n => some (.int n)
  else .ok ((Numeral.readFloat? t).map fun x => normalize (.float x))

end Number

end StackScript
