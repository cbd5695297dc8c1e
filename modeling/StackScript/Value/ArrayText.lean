import StackScript.Value.Classify

/-! # Array texts

An array text holds elements between commas. An element is a number, a truth value, an array
in turn, or a text of its own, without the blanks around it. Commas inside the square
brackets of an element do not separate.

Reading an array that lies one level deeper takes three nested calls, of which `depth` are
left.
-/

namespace StackScript.ArrayText

/-- How a code point changes the number of open square brackets. -/
def bracketStep : Char → Int
  | '[' => 1
  | ']' => -1
  | _ => 0

/-- Cuts a text at its commas where `depth` plus the number of brackets open since is zero.
The number of brackets may become negative. -/
def splitFrom (depth : Int) : Text → List Text
  | [] => [[]]
  | c :: rest =>
      if c == ',' && depth == 0 then [] :: splitFrom 0 rest
      else match splitFrom (depth + bracketStep c) rest with
        | [] => [[c]]
        | part :: more => (c :: part) :: more

/-- Cuts a text at the commas that stand outside all square brackets. -/
def splitTopLevel (t : Text) : List Text := splitFrom 0 t

/-- Reads an element, given how an array inside it is read. -/
def element (array : Text → Except Fault (List Value)) (part : Text) : Except Fault Value := do
  let t := Text.trim part
  if Number.isNumeral t then
    match ← Number.read? t with
    | some n => return .number n
    | none => return .text t
  else if Text.isBooleanLiteral t then return .bool (Text.isTrue t)
  else if Text.isDelimited '[' ']' t then return .list (← array t)
  else return .text t

/-- Reads the elements of an array text. Its first and last code points are taken to be the
brackets. -/
def read : (depth : Nat) → Text → Except Fault (List Value)
  | depth + 3, t =>
      if (Text.trim (Text.inner t)).isEmpty then .ok []
      else (splitTopLevel (Text.inner t)).mapM (element (read depth))
  | _, _ => .error .tooDeep

example : splitTopLevel "1,[2,3],".toList = ["1".toList, "[2,3]".toList, []] := by decide

end StackScript.ArrayText
