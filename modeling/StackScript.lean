import StackScript.Command.FileTree
import StackScript.Command.Log
import StackScript.Command.Options
import StackScript.Command.OutputName
import StackScript.Command.Path
import StackScript.Command.Resolve
import StackScript.Command.Run
import StackScript.Evaluation
import StackScript.Fault
import StackScript.Kind
import StackScript.Lambda
import StackScript.Main
import StackScript.Matrix
import StackScript.Number.Arithmetic
import StackScript.Number.Basic
import StackScript.Number.Compare
import StackScript.Numeral.Binary64
import StackScript.Numeral.Decimal
import StackScript.Numeral.Integer
import StackScript.Numeral.Shortest
import StackScript.Operator.Apply
import StackScript.Operator.Basic
import StackScript.Operator.Operand
import StackScript.Operator.Operation
import StackScript.Operator.Reach
import StackScript.Session
import StackScript.Text.Basic
import StackScript.Text.Digit
import StackScript.Text.Lines
import StackScript.Text.Printable
import StackScript.Text.Quoted
import StackScript.Text.Utf8
import StackScript.Token.Basic
import StackScript.Token.Lexer
import StackScript.Value.ArrayText
import StackScript.Value.Basic
import StackScript.Value.Classify
import StackScript.Value.Coerce
import StackScript.Value.Halves
import StackScript.Value.Inspect
import StackScript.Value.Json
import StackScript.Value.Render
import StackScript.Proofs.Token.Rejoin
import StackScript.Proofs.Evaluation.Rollback
import StackScript.Proofs.Session.Words
import StackScript.Proofs.Session.FailSoft
import StackScript.Proofs.Value.Kinds
import StackScript.Proofs.Session.Escape
import StackScript.Proofs.Simulation.Alike
import StackScript.Proofs.Simulation.Value
import StackScript.Proofs.Simulation.Operation
import StackScript.Proofs.Simulation.Evaluation
import StackScript.Proofs.Session.Inlining
import StackScript.Proofs.Numeral.Integer
import StackScript.Proofs.Value.Written
import StackScript.Proofs.Value.ArrayReading
import StackScript.Proofs.Value.JsonReading
import StackScript.Proofs.Value.Interchange
import StackScript.Proofs.Value.Depth
import StackScript.Proofs.Value.RoundTrip
import StackScript.Proofs.Session.Interchange
import StackScript.Proofs.Evaluation.Exhaustion
import StackScript.Proofs.Session.Limit
import StackScript.Proofs.Evaluation.Trace
import StackScript.Proofs.Session.Record
import StackScript.Proofs.Token.Reading
import StackScript.Proofs.Token.Strict
import StackScript.Proofs.Storable.Value
import StackScript.Proofs.Storable.Operation
import StackScript.Proofs.Storable.Evaluation
import StackScript.Proofs.Value.LineFeed
import StackScript.Proofs.Session.Lines
import StackScript.Proofs.Matrix.Precision
import StackScript.Proofs.Matrix.Product
import StackScript.Proofs.Operator.Integers
import StackScript.Proofs.Operator.Rotation
import StackScript.Proofs.Session.Success
import StackScript.Proofs.Session.Factorial
import StackScript.Proofs.Text.Utf8
import StackScript.Proofs.Command.OutputName
import StackScript.Proofs.Command.Walk
import StackScript.Proofs.Command.FileTree
import StackScript.Proofs.Command.Options
import StackScript.Proofs.Command.Run
import StackScript.Proofs.Token.Append
import StackScript.Proofs.Token.Spacing
import StackScript.Proofs.Lambda.Reading
import StackScript.Proofs.Lambda.Written
import StackScript.Proofs.Session.Quoting
import StackScript.Proofs.Session.Parameters
import StackScript.Proofs.Numeral.Double
import StackScript.Proofs.Value.Faults
import StackScript.Proofs.Value.Shown
import StackScript.Proofs.Value.Levels
import StackScript.Proofs.Operator.Comparison
import StackScript.Proofs.Operator.Truth
import StackScript.Proofs.Operator.ElementSum
import StackScript.Proofs.Matrix.Acceptance
import StackScript.Proofs.Session.MatrixAlgebra
import StackScript.Proofs.Numeral.Finite
import StackScript.Proofs.Numeral.Nearest
import StackScript.Proofs.Numeral.Order
import StackScript.Proofs.Matrix.Transposition
import StackScript.Proofs.Operator.Shifts
import StackScript.Proofs.Value.Cutting
import StackScript.Proofs.Value.StringText
import StackScript.Proofs.Operator.Strings
import StackScript.Proofs.Numeral.Spelling
import StackScript.Proofs.Value.Writable
import StackScript.Proofs.Value.Coercion
import StackScript.Proofs.Value.Parts
