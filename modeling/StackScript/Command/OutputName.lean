import StackScript.Text.Digit

/-! # Output names

A program file carries an identifier of three decimal digits in its name, and its output goes
to the file that carries the same one.
-/

namespace StackScript.OutputName

/-- The output file of a program whose name carries no identifier. -/
def fallback : Text := "output.txt".toList

/-- The text without `front`, if it begins with it. -/
def dropFront? (front t : Text) : Option Text :=
  if front.isPrefixOf t then some (t.drop front.length) else none

/-- The identifier of a name that begins with `input-XYZ.txt`. -/
def identifierAtFront? (t : Text) : Option Text := do
  let rest ← dropFront? "input-".toList t
  let identifier := rest.take 3
  if identifier.length == 3 && identifier.all Text.isDecimalDigit then
    let _ ← dropFront? ".txt".toList (rest.drop 3)
    return identifier
  else none

/-- The leftmost identifier in a name. -/
def identifier? : Text → Option Text
  | [] => none
  | c :: rest =>
      match identifierAtFront? (c :: rest) with
      | some identifier => some identifier
      | none => identifier? rest

/-- The name of the output file for the program file of that name. -/
def ofProgramName? (name : Text) : Option Text :=
  (identifier? name).map fun identifier => "output-".toList ++ identifier ++ ".txt".toList

end StackScript.OutputName
