import StackScript.Fault
import StackScript.Number.Basic
import StackScript.Token.Lexer
import StackScript.Value.Basic

/-! # Lambdas

A lambda is a text in braces: a parameter count, a bar and a body. Its parameters are the top
slots of the stack at the call; `x0` in the body stands for the lowest of them.
-/

namespace StackScript

/-- A lambda as it was read: its whole text, the number of its parameters, and the words of
its body. -/
structure Lambda where
  text : Text
  parameters : Nat
  body : List Text
  deriving DecidableEq, Repr

namespace Lambda

/-- The word that stands for the text of the lambda itself. -/
def selfWord : Text := "SELF".toList

/-- What stands before and behind the first bar between the braces. -/
def parts? (text : Text) : Option (Text × Text) := Text.cutAt '|' (Text.trim (Text.inner text))

/-- Reads a lambda. -/
def read (text : Text) : Except Fault Lambda :=
  if !Text.isDelimited '{' '}' text then .error (.undelimitedLambda text)
  else match parts? text with
    | none => .error (.lambdaWithoutBar text)
    | some (header, body) =>
        let header := Text.trim header
        if header.isEmpty || !header.all Char.isDigit then .error (.badParameterCount header)
        else if Numeral.digitLimit < header.length then .error (.numeralTooLong header.length)
        else .ok ⟨text, Numeral.natValue header, Token.texts body⟩

/-- The digits of a reference to a parameter: an `x` and digits. A line feed may follow. -/
def parameterDigits? (token : Text) : Option Text :=
  match Text.dropFinalLineFeed token with
  | 'x' :: digits => if digits.isEmpty || !digits.all Char.isDigit then none else some digits
  | _ => none

/-- The position of the parameter that a token refers to. -/
def parameterIndex? (token : Text) : Except Fault (Option Nat) :=
  match parameterDigits? token with
  | none => .ok none
  | some digits =>
      if Numeral.digitLimit < digits.length then .error (.numeralTooLong digits.length)
      else .ok (some (Numeral.natValue digits))

/-- Takes the values of `count` parameters off the stack, the lowest slot first. -/
def bind? (count : Nat) (s : Stack) : Option (List Value × Stack) :=
  if s.length < count then none else some ((s.take count).reverse, s.drop count)

end Lambda

end StackScript
