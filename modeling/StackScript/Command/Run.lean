import StackScript.Command.Options
import StackScript.Command.OutputName
import StackScript.Command.Resolve
import StackScript.Value.Halves

/-! # Running a program file

A run reads a program file, evaluates it, and leaves the written stack in the output file. If
the file name has no identifier or the file cannot be read, the output file is left empty,
and the exit code tells which of the two it was.

Whatever is shown or logged is taken to be put out. Calls are counted roughly: the work of a
run besides evaluation and writing takes the same number of nested calls in every run. Words are
those that a command line can have, which hold no null code point.
-/

namespace StackScript.Command

/-- Where a run takes place. -/
structure Host where
  /-- The calls that are nested when the recursion limit is set. -/
  running : Nat := 3
  /-- The calls in which evaluation is nested. -/
  around : Nat := 5
  /-- The calls that a run takes for its own work. -/
  work : Nat := 16
  /-- What a run that is cut short in its own work leaves of a tree. -/
  leftover : FileTree → FileTree := id

/-- What ends a run without an exit code. -/
inductive Failure where
  | refused (refusal : FileTree.Refusal) (path : Path)
  /-- The path to the program file leads into a circle of links. -/
  | circle (path : Path)
  | undecodable (reason : Text.Undecodable)
  | unencodable (reason : Text.Unencodable)
  | limitTooLow
  | limitTooLarge
  /-- The limit is reached by the calls that are nested already. -/
  | limitReached (limit running : Nat)
  /-- The limit leaves too few calls for the work of a run. -/
  | cutShort
  | fault (cause : Fault)
  deriving DecidableEq

namespace Failure

/-- The name under which a failure is reported. -/
def name : Failure → String
  | .refused refusal _ => refusal.name
  | .circle _ => "RuntimeError"
  | .undecodable _ => "UnicodeDecodeError"
  | .unencodable _ => "UnicodeEncodeError"
  | .limitTooLow => "ValueError"
  | .limitTooLarge => "OverflowError"
  | .limitReached .. => "RecursionError"
  | .cutShort => Fault.tooDeep.category.name
  | .fault cause => cause.category.name

/-- The text of a failure. -/
def message : Failure → String
  | .refused refusal path =>
      s!"[Errno {refusal.number}] {refusal.reason}: {Text.display path.toText}"
  | .circle path => s!"Symlink loop from {Text.display path.toText}"
  | .undecodable reason => reason.message
  | .unencodable reason => reason.message
  | .limitTooLow => "recursion limit must be greater or equal than 1"
  | .limitTooLarge => "Python int too large to convert to C int"
  | .limitReached limit running =>
      s!"cannot set the recursion limit to {limit} at the recursion depth {running}: " ++
        "the limit is too low"
  | .cutShort => Fault.tooDeep.message
  | .fault cause => cause.message

end Failure

/-- How a run ends. -/
inductive Ending where
  | exit (code : Nat)
  | failed (failure : Failure)
  deriving DecidableEq

/-- What a run leaves behind. -/
structure Result where
  ending : Ending
  output : String := ""
  log : String := ""
  tree : FileTree

/-- The name of the program in its own messages. -/
def programName : String := "postfix-jax"

/-- How the command is called. -/
def usage : String :=
  s!"usage: {programName} [-h] [--output-dir OUTPUT_DIR] [--print]\n" ++
    "                   [--log-level \x7bDEBUG,INFO,WARNING,ERROR\x7d]\n" ++
    "                   [--recursion-limit RECURSION_LIMIT]\n" ++
    "                   input\n"

/-- What is put out if help is asked for. -/
def help : String :=
  usage ++
    "\nRun a program file `input-XYZ.txt` and write its final stack to `output-\n" ++
    "XYZ.txt`.\n" ++
    "\npositional arguments:\n" ++
    "  input                 program file, named input-XYZ.txt\n" ++
    "\noptions:\n" ++
    "  -h, --help            show this help message and exit\n" ++
    "  --output-dir OUTPUT_DIR\n" ++
    "                        directory for output-XYZ.txt (defaults to the input\n" ++
    "                        file's directory)\n" ++
    "  --print               also print the formatted stack to stdout\n" ++
    "  --log-level \x7bDEBUG,INFO,WARNING,ERROR\x7d\n" ++
    "                        logging level; DEBUG lists every skipped token\n" ++
    "  --recursion-limit RECURSION_LIMIT\n" ++
    "                        raise the host recursion limit for deeply recursive\n" ++
    "                        programs\n"

/-- The message on a program file without an identifier. -/
def nameMessage (name : Text) : String :=
  s!"Cannot derive a three-digit identifier from {Text.display name}"

/-- The name of the output file for a path, or the message that there is none. -/
def outputName (path : Path) : Except String Text :=
  match OutputName.ofProgramName? path.name with
  | some name => .ok name
  | none => .error (nameMessage path.name)

/-- How many calls can be nested in evaluation. A limit that the options ask for has to leave
calls to the run. -/
def chooseLimit (host : Host) (options : Options) : Except Failure Nat := do
  let limit ← match options.recursionLimit with
    | none => pure defaultLimit
    | some n =>
        if n < -Int.pow 2 31 || Int.pow 2 31 ≤ n then .error .limitTooLarge
        else if n < 1 then .error .limitTooLow
        else if n ≤ host.running then .error (.limitReached n.toNat host.running)
        else pure n.toNat
  if limit < host.work then .error .cutShort else return limit - host.around

/-- The directory of the output file: the one that the options name, or else the one in which
the program file is, wherever links on the path to it lead. -/
def outputDirectory (here : List Text) (tree : FileTree) (options : Options) (limit : Nat) :
    Except Failure Path :=
  match options.outputDirectory with
  | some directory => .ok (Path.ofText directory)
  | none =>
      match tree.resolve here limit (Path.ofText options.input) with
      | .ok input => .ok input.parent
      | .error .tooDeep => .error (.fault .tooDeep)
      | .error (.circle path) => .error (.circle path)

/-- Leaves an empty output file and ends with a code. -/
def leaveEmpty (here : List Text) (tree : FileTree) (directory : Path) (name : Text)
    (code : Nat) (log : String) : Result :=
  let attempt := tree.writeInto here directory name []
  { ending := match attempt.refused with
      | none => .exit code
      | some (refusal, path) => .failed (.refused refusal path)
    log := log
    tree := attempt.tree }

/-- Writes the stack that a session ended with, and reads it back to show it if asked to. A
stack that cannot be encoded leaves an empty file. -/
def finish (here : List Text) (tree : FileTree) (options : Options) (directory : Path)
    (name : Text) (session : Session) : Result :=
  let journal := Log.ofJournal [] session.journal
  let failed (failure : Failure) (log : List Log.Line) (tree : FileTree) : Result :=
    { ending := .failed failure, log := Log.render options.level log, tree := tree }
  match session.render with
  | .error fault => failed (.fault fault) journal tree
  | .ok content =>
      let unencodable := session.stack.unencodable? session.limit
      let bytes := if unencodable.isSome then [] else Text.encodeUtf8 content
      let attempt := tree.writeInto here directory name bytes
      match attempt.refused, unencodable with
      | some (refusal, path), _ => failed (.refused refusal path) journal attempt.tree
      | none, some reason => failed (.unencodable reason) journal attempt.tree
      | none, none =>
          let path := directory.child name
          let account := session.skipped.filterMap Log.skippedAccount ++
            [⟨.info, .command, s!"wrote {String.ofList path.toText}"⟩]
          if options.echo then
            match attempt.tree.read here path with
            | .error refusal => failed (.refused refusal path) (journal ++ account) attempt.tree
            | .ok _ =>
                { ending := .exit 0
                  output := String.ofList (Text.unifyLineFeeds content) ++ "\n"
                  log := Log.render options.level (journal ++ account)
                  tree := attempt.tree }
          else
            { ending := .exit 0
              log := Log.render options.level (journal ++ account)
              tree := attempt.tree }

/-- Runs the program file that the options name, from the directory `here`. -/
def execute (here : List Text) (tree : FileTree) (options : Options) (limit : Nat) : Result :=
  let input := Path.ofText options.input
  let complaint (message : String) : String :=
    Log.render options.level [⟨.error, .command, message⟩]
  match outputDirectory here tree options limit with
  | .error failure => { ending := .failed failure, tree := tree }
  | .ok directory =>
      match outputName input with
      | .error message => leaveEmpty here tree directory OutputName.fallback 2 (complaint message)
      | .ok name =>
          match tree.read here input with
          | .error refusal =>
              let message := s!"Cannot read program {Text.display input.toText}: {refusal.reason}"
              leaveEmpty here tree directory name 1 (complaint message)
          | .ok bytes =>
              match Text.decodeUtf8 bytes with
              | .error reason => { ending := .failed (.undecodable reason), tree := tree }
              | .ok source =>
                  let start : Session := { limit := limit }
                  match start.runSource (Text.unifyLineFeeds source) with
                  | (session, none) => finish here tree options directory name session
                  | (session, some fault) =>
                      { ending := .failed (.fault fault)
                        log := Log.render options.level (Log.ofJournal [] session.journal)
                        tree := tree }

/-- Runs a command line from the directory `here`. The message on a misuse stands for itself,
without the lines on usage before it. -/
def run (here : List Text) (tree : FileTree) (words : List Text) (host : Host := {}) : Result :=
  match Options.read words with
  | .error .help => { ending := .exit 0, output := help, tree := tree }
  | .error misuse =>
      { ending := .exit 2, log := s!"{programName}: error: {misuse.message}\n", tree := tree }
  | .ok options =>
      match chooseLimit host options with
      | .error .cutShort => { ending := .failed .cutShort, tree := host.leftover tree }
      | .error failure => { ending := .failed failure, tree := tree }
      | .ok limit => execute here tree options limit

end StackScript.Command
