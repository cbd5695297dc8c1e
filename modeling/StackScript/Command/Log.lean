import StackScript.Session

/-! # The log

What happens in a run is logged line by line, each with a level and the part of the program
that speaks. Brackets that belong to no token are noted when a line is read, and for the body
of a lambda when its text is read, unless it is among those that were read last.
-/

namespace StackScript

namespace Log

/-- How important a line is. -/
inductive Level where
  | debug
  | info
  | warning
  | error
  deriving DecidableEq, Repr

namespace Level

/-- How a level is written. -/
def name : Level → String
  | .debug => "DEBUG"
  | .info => "INFO"
  | .warning => "WARNING"
  | .error => "ERROR"

/-- All levels, the least important first. -/
def all : List Level := [.debug, .info, .warning, .error]

/-- The position of a level among all. -/
def rank : Level → Nat
  | .debug => 0
  | .info => 1
  | .warning => 2
  | .error => 3

/-- Finds a level by its name. -/
def ofName? (name : Text) : Option Level := all.find? fun level => level.name.toList == name

end Level

/-- The part of the program that speaks. -/
inductive Speaker where
  | lexer
  | evaluator
  | command
  deriving DecidableEq, Repr

/-- The name of a part of the program in the log. -/
def Speaker.name : Speaker → String
  | .lexer => "postfix_jax.lexer"
  | .evaluator => "postfix_jax.evaluator"
  | .command => "postfix_jax.cli"

/-- A line of the log. -/
structure Line where
  level : Level
  speaker : Speaker
  message : String
  deriving DecidableEq, Repr

/-- The written line. -/
def Line.render (line : Line) : String :=
  s!"{line.level.name} {line.speaker.name}: {line.message}\n"

/-- The written lines that are at least as important as `level`. -/
def render (level : Level) (lines : List Line) : String :=
  String.join ((lines.filter fun line => level.rank ≤ line.level.rank).map Line.render)

/-- The note on a bracket that belongs to no token. -/
def bracketNote (m : Misplaced) : Line :=
  let message := match m.reason with
    | .unmatched closer => s!"skipping stray {Text.display [closer]} at index {m.start}"
    | _ => s!"skipping {m.message}"
  ⟨.debug, .lexer, message⟩

/-- The notes on a text that is read. -/
def bracketNotes (source : Text) : List Line :=
  (Token.misplacedBrackets source).map bracketNote

/-- The note on a step that failed. -/
def skippedNote (step : Step) (fault : Fault) : Line :=
  let report := fault.report
  let what := s!"line {step.line}: skipped {Text.display step.token}"
  ⟨.debug, .evaluator, s!"{what}: {report.category.name}: {report.message}"⟩

/-- How many lambdas are remembered. -/
def memory : Nat := 256

/-- Remembers a lambda as the last one that was read. -/
def remember (text : Text) (known : List Text) : List Text :=
  (text :: known.filter (· != text)).take memory

/-- The lines for a journal. The lambdas whose texts are in `known` are remembered, the last one
that was read first. -/
def ofJournal (known : List Text) : List Event → List Line
  | [] => []
  | .lineRead text :: rest => bracketNotes text ++ ofJournal known rest
  | .lambdaRead text :: rest =>
      let body := ((Lambda.parts? text).map Prod.snd).getD []
      let notes := if known.contains text then [] else bracketNotes body
      notes ++ ofJournal (remember text known) rest
  | .lambdaStarved needed held :: rest =>
      ⟨.debug, .evaluator, s!"lambda needs {needed} values, stack has {held}; not invoked"⟩ ::
        ofJournal known rest
  | .skipped step :: rest =>
      (step.fault.map (skippedNote step)).toList ++ ofJournal known rest

/-- The closing account of a step that failed. -/
def skippedAccount (step : Step) : Option Line :=
  step.fault.map fun fault =>
    ⟨.info, .command,
      s!"line {step.line}: skipped {Text.display step.token} ({fault.report.message})"⟩

end Log

end StackScript
