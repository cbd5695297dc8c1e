import StackScript.Kind
import StackScript.Numeral.Integer
import StackScript.Operator.Basic
import StackScript.Text.Quoted

/-! # Faults

A fault says why a word could not be carried out. Each has a category and a message. What a
run records is its report: the categories of the platform are mapped onto those of the
language.
-/

namespace StackScript

/-- The families of faults: first those of the language, then those of the platform beneath
it. -/
inductive Category where
  | runtime
  | stackUnderflow
  | operandType
  | shape
  | lambdaSyntax
  | unrecognizedToken
  | program
  | value
  | unicode
  | type
  | overflow
  | zeroDivision
  | recursion
  | memory
  | index
  | key
  | lookup
  deriving DecidableEq, Repr

namespace Category

/-- The name under which a category is reported. -/
def name : Category → String
  | .runtime => "PostfixRuntimeError"
  | .stackUnderflow => "StackUnderflowError"
  | .operandType => "OperandTypeError"
  | .shape => "ShapeError"
  | .lambdaSyntax => "LambdaSyntaxError"
  | .unrecognizedToken => "UnrecognizedTokenError"
  | .program => "ProgramError"
  | .value => "ValueError"
  | .unicode => "UnicodeError"
  | .type => "TypeError"
  | .overflow => "OverflowError"
  | .zeroDivision => "ZeroDivisionError"
  | .recursion => "RecursionError"
  | .memory => "MemoryError"
  | .index => "IndexError"
  | .key => "KeyError"
  | .lookup => "LookupError"

/-- The categories that a step may record as they are. -/
def isOfLanguage : Category → Bool
  | .runtime | .stackUnderflow | .operandType | .shape | .lambdaSyntax | .unrecognizedToken => true
  | _ => false

/-- The categories that stand for an unsuitable value. -/
def isOfValue : Category → Bool
  | .value | .unicode => true
  | _ => false

end Category

/-- A category with the text that is shown for it. -/
structure Report where
  category : Category
  message : String
  deriving DecidableEq, Repr

namespace Report

/-- The words that make an unsuitable value a matter of shape. -/
def shapeWords : List String :=
  ["shape", "rank", "length", "size", "dimension", "incompatible"]

/-- Does the message speak of a shape, in whatever letter case? -/
def isAboutShape (message : String) : Bool :=
  shapeWords.any fun word => Text.mentions word.toList (Text.lower message.toList)

/-- What a step records for a failure. A failure of the language stays as it is. One of the
platform takes the nearest category of the language, and shows its name if it has no message. -/
def classify (category : Category) (message : String) : Report :=
  if category.isOfLanguage then ⟨category, message⟩
  else
    let shown := if message.isEmpty then category.name else message
    if category = .index then ⟨.stackUnderflow, shown⟩
    else if category.isOfValue && isAboutShape shown then ⟨.shape, shown⟩
    else if category = .type then ⟨.operandType, shown⟩
    else ⟨.runtime, shown⟩

/-- The report of a failure that was given a message or none. A missing key is shown
quoted. -/
def ofFailure (category : Category) (message : Option String) : Report :=
  match category, message with
  | .key, some key => classify .key (Text.display key.toList)
  | category, message => classify category (message.getD "")

end Report

/-- The parts that an operand plays in a product. -/
inductive Role where
  | left
  | right
  | matrix
  | vector
  deriving DecidableEq, Repr

/-- The name of a part in messages. -/
def Role.name : Role → String
  | .left => "left"
  | .right => "right"
  | .matrix => "matrix"
  | .vector => "vector"

/-- Where an operand stands: the operand itself or one of its rows. -/
structure Place where
  role : Role
  row : Option Nat := none
  deriving DecidableEq, Repr

/-- The name of a place in messages. -/
def Place.name (place : Place) : String :=
  match place.row with
  | none => place.role.name
  | some row => s!"{place.role.name}[{row}]"

/-- Why a word could not be carried out. -/
inductive Fault where
  /-- The operator needs more values than the stack holds. -/
  | underflow (operator : Operator) (needed held : Nat)
  /-- `EVAL` on an empty stack. -/
  | nothingToEvaluate
  /-- A word of a line that is neither an operator nor a value. -/
  | unrecognized (token : Text)
  /-- A name that no operator with a fixed effect has. -/
  | notAnOperator (name : Text)
  | unknownKind (name : Text)
  /-- An operand that has not the kind that the operator needs. -/
  | expected (operator : Operator) (kind : Kind) (found : Text)
  /-- Two array elements, as shown, that have no sum. -/
  | unaddable (left right : Text)
  /-- A negative base, as shown, under a fractional exponent. -/
  | noRealPower (base exponent : Text)
  /-- A text on the `textOnLeft` side and a number on the other have no order. -/
  | unordered (relation : Relation) (textOnLeft : Bool) (number : String)
  | notNumeric (place : Place) (index : Nat) (found : Text)
  | notRows (role : Role)
  | raggedRow (role : Role) (row length width : Nat)
  | widthMismatch (width length : Nat)
  | nonconformable (rows inner otherRows columns : Nat)
  | notThreeElements (left right : Nat)
  /-- A lambda that is not enclosed in braces. -/
  | undelimitedLambda (text : Text)
  | lambdaWithoutBar (text : Text)
  | badParameterCount (header : Text)
  /-- A numeral that is too long to be read, with the number of its digits. -/
  | numeralTooLong (digits : Nat)
  /-- An integer that is too long to be written. -/
  | integerTooLong
  | tooLargeForDouble
  | integerModuloByZero
  | floatModuloByZero
  | zeroToNegativePower
  | powerTooLarge
  | complexPowerTooLarge
  | shiftTooFar
  | repeatCountTooLarge
  | repeatedTextTooLong
  | infiniteCount
  | undefinedCount
  /-- Evaluation or a value is nested too deeply for the recursion limit. -/
  | tooDeep
  /-- The result would not fit into memory. -/
  | outOfMemory
  deriving DecidableEq, Repr

namespace Fault

/-- The family of a fault. -/
def category : Fault → Category
  | .underflow .. | .nothingToEvaluate => .stackUnderflow
  | .unrecognized _ => .unrecognizedToken
  | .notAnOperator _ | .expected .. | .unaddable .. | .noRealPower .. | .notNumeric .. =>
      .operandType
  | .notRows _ | .raggedRow .. | .widthMismatch .. | .nonconformable .. | .notThreeElements .. =>
      .shape
  | .undelimitedLambda _ | .lambdaWithoutBar _ | .badParameterCount _ => .lambdaSyntax
  | .unknownKind _ | .numeralTooLong _ | .integerTooLong | .undefinedCount => .value
  | .unordered .. => .type
  | .tooLargeForDouble | .powerTooLarge | .complexPowerTooLarge | .shiftTooFar
  | .repeatCountTooLarge | .repeatedTextTooLong | .infiniteCount => .overflow
  | .integerModuloByZero | .floatModuloByZero | .zeroToNegativePower => .zeroDivision
  | .tooDeep => .recursion
  | .outOfMemory => .memory

/-- The text of a fault. -/
def message : Fault → String
  | .underflow operator needed held =>
      s!"{operator.name} needs {needed} values, stack has {held}"
  | .nothingToEvaluate => "EVAL needs a value"
  | .unrecognized token => s!"Unrecognized token {Text.display token}"
  | .notAnOperator name => s!"{Text.display name} is not a table operator"
  | .unknownKind name => s!"{Text.display name} is not a valid ValueKind"
  | .expected operator kind found =>
      s!"{operator.name} expects a {kind.name}, got {Text.display found}"
  | .unaddable left right =>
      s!"cannot add array elements {String.ofList left} and {String.ofList right}"
  | .noRealPower base exponent =>
      s!"{String.ofList base} ** {String.ofList exponent} has no real result"
  | .unordered relation textOnLeft number =>
      let (left, right) := if textOnLeft then ("str", number) else (number, "str")
      s!"'{relation.name}' not supported between instances of '{left}' and '{right}'"
  | .notNumeric place index found =>
      s!"{place.name}[{index}] must be a number, got {String.ofList found}"
  | .notRows role => s!"{role.name} must be a non-empty list of rows"
  | .raggedRow role row length width =>
      s!"{role.name} row {row} has length {length}, expected {width}"
  | .widthMismatch width length =>
      s!"matrix width {width} does not match vector length {length}"
  | .nonconformable rows inner otherRows columns =>
      s!"incompatible matrix shapes ({rows}, {inner}) and ({otherRows}, {columns})"
  | .notThreeElements left right =>
      s!"cross product needs two 3-element vectors, got lengths {left} and {right}"
  | .undelimitedLambda text => s!"Lambda must be brace-delimited: {Text.display text}"
  | .lambdaWithoutBar text =>
      s!"Lambda is missing '|' after its parameter count: {Text.display text}"
  | .badParameterCount header =>
      s!"Lambda parameter count must be a non-negative integer, got {Text.display header}"
  | .numeralTooLong digits =>
      s!"Exceeds the limit ({Numeral.digitLimit} digits) for integer string conversion: " ++
        s!"value has {digits} digits; use sys.set_int_max_str_digits() to increase the limit"
  | .integerTooLong =>
      s!"Exceeds the limit ({Numeral.digitLimit} digits) for integer string conversion; " ++
        "use sys.set_int_max_str_digits() to increase the limit"
  | .tooLargeForDouble => "int too large to convert to float"
  | .integerModuloByZero => "integer modulo by zero"
  | .floatModuloByZero => "float modulo"
  | .zeroToNegativePower => "0.0 cannot be raised to a negative power"
  | .powerTooLarge => "(34, 'Numerical result out of range')"
  | .complexPowerTooLarge => "complex exponentiation"
  | .shiftTooFar => "too many digits in integer"
  | .repeatCountTooLarge => "cannot fit 'int' into an index-sized integer"
  | .repeatedTextTooLong => "repeated string is too long"
  | .infiniteCount => "cannot convert float infinity to integer"
  | .undefinedCount => "cannot convert float NaN to integer"
  | .tooDeep => "maximum recursion depth exceeded"
  | .outOfMemory => ""

/-- What a step records for the fault. -/
def report (fault : Fault) : Report := .classify fault.category fault.message

/-- Does a conversion answer the fault by leaving its value alone? -/
def isConversionFailure (fault : Fault) : Bool :=
  match fault.category with
  | .value | .unicode | .type | .overflow => true
  | _ => false

end Fault

end StackScript
