import StackScript.Lambda
import StackScript.Operator.Reach

/-! # Evaluation

Words run one after the other on one stack. `EVAL` and lambdas run further words on the same
stack. Every word that can fail runs under a guard: if it fails, the slots that it may have
touched are put back, the failure is recorded, and evaluation goes on. Only the failure to
nest any deeper is passed on, so that a runaway recursion fails the word of the line that
began it.

The recursion limit is a parameter. A nested word takes four of the `depth` nested calls
that are left.
-/

namespace StackScript

/-- A word of a line or a nested word that was run, and why it failed if it did. -/
structure Step where
  token : Text
  line : Nat
  fault : Option Fault := none
  deriving DecidableEq, Repr

/-- What can be told of a run while it goes on. -/
inductive Event where
  /-- A line of this text was cut into tokens. -/
  | lineRead (text : Text)
  /-- A lambda of this text was read. -/
  | lambdaRead (text : Text)
  /-- A lambda found fewer values than it has parameters. -/
  | lambdaStarved (needed held : Nat)
  /-- A word failed and was skipped. -/
  | skipped (step : Step)
  deriving DecidableEq, Repr

/-- A stack after some words, what happened on the way, and the fault that ended them early
if there was one. -/
structure Outcome where
  stack : Stack
  events : List Event := []
  fault : Option Fault := none

namespace Outcome

/-- Goes on from the stack of an outcome, unless a fault has ended it. -/
def andThen (o : Outcome) (next : Stack → Outcome) : Outcome :=
  match o.fault with
  | some _ => o
  | none =>
      let o' := next o.stack
      { o' with events := o.events ++ o'.events }

/-- Precedes an outcome with an event. -/
def after (event : Event) (o : Outcome) : Outcome := { o with events := event :: o.events }

end Outcome

namespace Evaluation

/-- The mark before a word that is pushed instead of run. -/
def quoteMark : Char := '\''

/-- Runs a word of the body of a lambda: a parameter is replaced by its value, if there are
that many, and the word for the lambda itself by its text. -/
def runBodyWord (nested : Value → Stack → Outcome) (text : Text) (parameters : List Value)
    (token : Text) (s : Stack) : Outcome :=
  match Lambda.parameterIndex? token with
  | .error fault => { stack := s, fault := some fault }
  | .ok (some index) => { stack := parameters.getD index (.text token) :: s }
  | .ok none =>
      if token == Lambda.selfWord then { stack := .text text :: s }
      else nested (.text token) s

/-- Runs words one after the other. -/
def runWords (run : Text → Stack → Outcome) : List Text → Stack → Outcome
  | [], s => { stack := s }
  | token :: rest, s => (run token s).andThen (runWords run rest)

/-- Calls a lambda, given how the words of its body are run. If the stack holds fewer values
than it has parameters, nothing happens. -/
def call (nested : Value → Stack → Outcome) (text : Text) (s : Stack) : Outcome :=
  match Lambda.read text with
  | .error fault => { stack := s, fault := some fault }
  | .ok lambda =>
      .after (.lambdaRead text) <|
        match Lambda.bind? lambda.parameters s with
        | none => { stack := s, events := [.lambdaStarved lambda.parameters s.length] }
        | some (parameters, rest) =>
            runWords (runBodyWord nested text parameters) lambda.body rest

/-- Pops a value and runs it. -/
def evalTop (nested : Value → Stack → Outcome) : Stack → Outcome
  | [] => { stack := [], fault := some .nothingToEvaluate }
  | v :: rest => nested v rest

/-- Runs a text: operators and lambdas act, a quoted word loses its mark, and any other text
is pushed. -/
def runText (depth : Nat) (nested : Value → Stack → Outcome) (t : Text) (s : Stack) : Outcome :=
  match t with
  | '\'' :: word => { stack := .text word :: s }
  | _ =>
      match Text.kind t with
      | .lambda => call nested t s
      | .operator =>
          if t == evalWord then evalTop nested s
          else
            let applied := Operator.applyNamed depth t s
            { stack := applied.stack, fault := applied.fault }
      | _ => { stack := .text t :: s }

/-- Can running the text fail? Quoted words and plain values cannot. -/
def isExecutable (t : Text) : Bool :=
  t.head? != some quoteMark && (Text.kind t == .operator || Text.kind t == .lambda)

/-- How many top slots the text may touch when it is run. -/
def reach (depth : Nat) (t : Text) (s : Stack) : Except Fault Nat :=
  if Text.kind t == .operator then Operator.reachNamed depth t s else .ok s.length

/-- Puts the top `count` slots of `before` back in place of what `after` has above the
others. -/
def restore (count : Nat) (before after : Stack) : Stack :=
  before.take count ++ after.drop (after.length - (before.length - count))

/-- Runs a text under a guard: after a fault the stack is as it was, and the fault is given
along. That the reach cannot be told is a fault outside of the guard. -/
def attempt (depth : Nat) (nested : Value → Stack → Outcome) (t : Text) (s : Stack) :
    Except Fault Outcome :=
  if isExecutable t then do
    let count ← reach depth t s
    let o := runText depth nested t s
    match o.fault with
    | none => return o
    | some _ => return { o with stack := restore count s o.stack }
  else return runText depth nested t s

/-- Records the fault of a word, if it has one, and goes on from its stack. -/
def absorb (line : Nat) (t : Text) (o : Outcome) : Outcome :=
  match o.fault with
  | none => o
  | some fault => { stack := o.stack, events := o.events ++ [.skipped ⟨t, line, some fault⟩] }

/-- Runs a nested text under its guard. Only the failure to nest any deeper, and a reach that
cannot be told, are passed on. -/
def runGuarded (depth line : Nat) (nested : Value → Stack → Outcome) (t : Text) (s : Stack) :
    Outcome :=
  match attempt depth nested t s with
  | .error fault => { stack := s, fault := some fault }
  | .ok o => if o.fault = some .tooDeep then o else absorb line t o

/-- Runs a value within a word of line `line`. Computed values are pushed. -/
def runNested (line : Nat) : (depth : Nat) → Value → Stack → Outcome
  | depth + 4, .text t, s => runGuarded depth line (runNested line depth) t s
  | _ + 4, v, s => { stack := v :: s }
  | _, _, s => { stack := s, fault := some .tooDeep }

end Evaluation

end StackScript
