import StackScript.Evaluation
import StackScript.Text.Lines

/-! # Sessions

A session evaluates lines against one stack, which persists from line to line, and keeps a
journal of what happened.
-/

namespace StackScript

/-- The recursion limit if none is asked for. -/
def defaultLimit : Nat := 1000

/-- The state between two lines. -/
structure Session where
  /-- How many calls may be nested. -/
  limit : Nat := defaultLimit
  stack : Stack := []
  /-- What happened so far, in order. -/
  journal : List Event := []
  lineCount : Nat := 0

/-- The failed step that an event records. -/
def Event.step? : Event → Option Step
  | .skipped step => some step
  | _ => none

namespace Session

/-- The steps that failed so far, nested ones included, in order. -/
def skipped (session : Session) : List Step := session.journal.filterMap Event.step?

/-- The session after an outcome. -/
def advance (session : Session) (o : Outcome) : Session :=
  { session with stack := o.stack, journal := session.journal ++ o.events }

/-- How values are run within a word of the current line. -/
def nested (session : Session) : Value → Stack → Outcome :=
  Evaluation.runNested session.lineCount session.limit

/-- Runs a value outside of any guard. -/
def runUnguarded (session : Session) (v : Value) : Session × Option Fault :=
  let o := match v with
    | .text t => Evaluation.runText session.limit session.nested t session.stack
    | v => { stack := v :: session.stack }
  (session.advance o, o.fault)

/-- Calls a lambda outside of any guard. -/
def call (session : Session) (text : Text) : Session × Option Fault :=
  let o := Evaluation.call session.nested text session.stack
  (session.advance o, o.fault)

/-- Runs a word of a line under its guard. A word that is neither an operator nor a value
fails. The fault outside of the guard ends the line. -/
def step (session : Session) (token : Text) : Except Fault (Session × Step) :=
  let line := session.lineCount
  let outcome : Except Fault Outcome :=
    if token.head? != some Evaluation.quoteMark && Text.kind token == .literal then
      .ok { stack := session.stack, fault := some (.unrecognized token) }
    else Evaluation.attempt session.limit session.nested token session.stack
  outcome.map fun o =>
    (session.advance (Evaluation.absorb line token o), ⟨token, line, o.fault⟩)

/-- Runs the words of a line and returns a step for each of them. -/
def runWords (session : Session) : List Text → Session × Except Fault (List Step)
  | [] => (session, .ok [])
  | token :: rest =>
      match session.step token with
      | .error fault => (session, .error fault)
      | .ok (session, step) =>
          let (session, steps) := session.runWords rest
          (session, steps.map (step :: ·))

/-- Runs a line. -/
def runLine (session : Session) (line : Text) : Session × Except Fault (List Step) :=
  let session : Session :=
    { session with
      lineCount := session.lineCount + 1
      journal := session.journal ++ [.lineRead line] }
  session.runWords (Token.texts line)

/-- Runs lines in order, up to one that does not end. -/
def runLines (session : Session) : List Text → Session × Option Fault
  | [] => (session, none)
  | line :: rest =>
      match session.runLine line with
      | (session, .error fault) => (session, some fault)
      | (session, .ok _) => session.runLines rest

/-- Runs all lines of a source text. -/
def runSource (session : Session) (source : Text) : Session × Option Fault :=
  session.runLines (Text.lines source)

/-- The written stack. -/
def render (session : Session) : Except Fault Text := Stack.render session.limit session.stack

end Session

/-- The stack after a source text, from the given stack on. -/
def evaluate (source : Text) (stack : Stack := []) : Except Fault Stack :=
  let start : Session := { stack := stack }
  match start.runSource source with
  | (session, none) => .ok session.stack
  | (_, some fault) => .error fault

/-- The written stack after a source text. -/
def runProgram (source : Text) : Except Fault Text := do
  Stack.render defaultLimit (← evaluate source)

example :
    (runProgram "3 4 +\nbogus 1 -\n2 \x7b1 | x0 x0 *\x7d".toList).toOption = some "6\n4".toList := by
  decide +kernel

end StackScript
