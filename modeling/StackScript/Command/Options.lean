import StackScript.Command.Log

/-! # The command line

The words of a command line: the program file, and options, which may be shortened as long as
they stay unambiguous. An option takes its value from behind an equals sign or from the next
word; the last value given for it counts. A lone pair of dashes ends the options.
-/

namespace StackScript

/-- What a command line asks for. -/
structure Options where
  input : Text
  outputDirectory : Option Text := none
  /-- Is the written stack also shown? -/
  echo : Bool := false
  level : Log.Level := .warning
  recursionLimit : Option Int := none
  deriving DecidableEq, Repr

namespace Options

/-- The options, apart from their values. -/
inductive Flag where
  | help
  | outputDirectory
  | echo
  | level
  | recursionLimit
  deriving DecidableEq, Repr

/-- Every way to write an option in full, in order. -/
def names : List (Text × Flag) :=
  [("-h".toList, .help), ("--help".toList, .help), ("--output-dir".toList, .outputDirectory),
   ("--print".toList, .echo), ("--log-level".toList, .level),
   ("--recursion-limit".toList, .recursionLimit)]

/-- How messages name an option. -/
def Flag.name : Flag → String
  | .help => "-h/--help"
  | .outputDirectory => "--output-dir"
  | .echo => "--print"
  | .level => "--log-level"
  | .recursionLimit => "--recursion-limit"

/-- Why a command line is refused. -/
inductive Misuse where
  | missingInput
  | unrecognized (words : List Text)
  | ambiguous (word : Text) (candidates : List Text)
  | missingValue (flag : Flag)
  | ignoredValue (flag : Flag) (value : Text)
  | invalidChoice (flag : Flag) (value : Text)
  | invalidInteger (flag : Flag) (value : Text)
  /-- Not a misuse: help was asked for. -/
  | help
  deriving DecidableEq, Repr

/-- The reason in words. -/
def Misuse.message : Misuse → String
  | .missingInput => "the following arguments are required: input"
  | .unrecognized words =>
      let list := Text.join [' '] words
      s!"unrecognized arguments: {String.ofList list}"
  | .ambiguous word candidates =>
      let list := Text.join [',', ' '] candidates
      s!"ambiguous option: {String.ofList word} could match {String.ofList list}"
  | .missingValue flag => s!"argument {flag.name}: expected one argument"
  | .ignoredValue flag value =>
      s!"argument {flag.name}: ignored explicit argument {Text.display value}"
  | .invalidChoice flag value =>
      let choices := ", ".intercalate (Log.Level.all.map fun level => s!"'{level.name}'")
      s!"argument {flag.name}: invalid choice: {Text.display value} (choose from {choices})"
  | .invalidInteger flag value =>
      s!"argument {flag.name}: invalid int value: {Text.display value}"
  | .help => ""

/-- What a word of a command line is. -/
inductive Word where
  | plain (t : Text)
  /-- The pair of dashes that ends the options. -/
  | dashes
  | flag (flag : Flag) (value : Option Text)
  /-- It looks like an option, but there is no such option. -/
  | unknown (t : Text)
  deriving DecidableEq, Repr

/-- A minus sign and digits, with at most one point before some of them. -/
def isNegativeNumeral (t : Text) : Bool :=
  match Text.dropFinalLineFeed t with
  | '-' :: rest =>
      let whole := rest.takeWhile Text.isDecimalDigit
      match rest.dropWhile Text.isDecimalDigit with
      | [] => !whole.isEmpty
      | '.' :: places => !places.isEmpty && places.all Text.isDecimalDigit
      | _ => false
  | _ => false

/-- The options that a word may mean, with the value that it gives them. After two dashes the
start of a name will do; after one, the letter alone counts. -/
def candidates (t : Text) : List (Text × Flag × Option Text) :=
  match t with
  | '-' :: '-' :: _ =>
      let (start, value) := match Text.cutAt '=' t with
        | some (start, value) => (start, some value)
        | none => (t, none)
      (names.filter fun n => start.isPrefixOf n.1).map fun n => (n.1, n.2, value)
  | _ =>
      names.filterMap fun n =>
        if n.1 == t.take 2 then some (n.1, n.2, none) else none

/-- An option written in full, with a value behind an equals sign or without one. -/
def full? (t : Text) : Option Word :=
  match names.lookup t with
  | some flag => some (.flag flag none)
  | none =>
      match Text.cutAt '=' t with
      | some (name, value) => (names.lookup name).map fun flag => .flag flag (some value)
      | none => none

/-- What a word is, unless options have ended before it. -/
def classifyWord (t : Text) : Except Misuse Word :=
  if t.head? != some '-' || t.length = 1 then .ok (.plain t)
  else match full? t with
    | some word => .ok word
    | none =>
        match candidates t with
        | [(_, flag, value)] => .ok (.flag flag value)
        | [] => .ok (if isNegativeNumeral t || t.contains ' ' then .plain t else .unknown t)
        | several => .error (.ambiguous t (several.map Prod.fst))

/-- What the words of a command line are. -/
def classifyWords : List Text → Except Misuse (List Word)
  | [] => .ok []
  | t :: rest =>
      if t == ['-', '-'] then .ok (.dashes :: rest.map .plain)
      else do return (← classifyWord t) :: (← classifyWords rest)

/-- What has been read of a command line. -/
structure Draft where
  input : Option Text := none
  outputDirectory : Option Text := none
  echo : Bool := false
  level : Log.Level := .warning
  recursionLimit : Option Int := none
  /-- The words that nothing asks for. -/
  surplus : List Text := []

/-- Gives an option a value. -/
def Draft.set (draft : Draft) (flag : Flag) (value : Text) : Except Misuse Draft :=
  match flag with
  | .help => .error .help
  | .outputDirectory => .ok { draft with outputDirectory := some value }
  | .echo => .ok { draft with echo := true }
  | .level =>
      match Log.Level.ofName? value with
      | some level => .ok { draft with level := level }
      | none => .error (.invalidChoice flag value)
  | .recursionLimit =>
      match Numeral.readInt? value with
      | some n => .ok { draft with recursionLimit := some n }
      | none => .error (.invalidInteger flag value)

/-- Does the option stand for itself? -/
def Flag.isSwitch : Flag → Bool
  | .help | .echo => true
  | _ => false

/-- Reads the words from left to right. The pair of dashes belongs to the input next to it,
and is surplus if there is none. -/
def readWords (draft : Draft) : List Word → Except Misuse Draft
  | [] => .ok draft
  | .plain t :: .dashes :: rest =>
      if draft.input.isNone then readWords { draft with input := some t } rest
      else readWords { draft with surplus := draft.surplus ++ [t, ['-', '-']] } rest
  | .plain t :: rest =>
      if draft.input.isNone then readWords { draft with input := some t } rest
      else readWords { draft with surplus := draft.surplus ++ [t] } rest
  | .dashes :: .plain t :: rest =>
      if draft.input.isNone then readWords { draft with input := some t } rest
      else readWords { draft with surplus := draft.surplus ++ [['-', '-'], t] } rest
  | .dashes :: rest => readWords { draft with surplus := draft.surplus ++ [['-', '-']] } rest
  | .unknown t :: rest => readWords { draft with surplus := draft.surplus ++ [t] } rest
  | .flag flag value :: rest =>
      if flag.isSwitch then
        match value with
        | some value => .error (.ignoredValue flag value)
        | none =>
            match draft.set flag [] with
            | .ok draft => readWords draft rest
            | .error misuse => .error misuse
      else
        match value, rest with
        | some value, rest =>
            match draft.set flag value with
            | .ok draft => readWords draft rest
            | .error misuse => .error misuse
        | none, .plain value :: rest =>
            match draft.set flag value with
            | .ok draft => readWords draft rest
            | .error misuse => .error misuse
        | none, _ => .error (.missingValue flag)

/-- Reads a command line. -/
def read (words : List Text) : Except Misuse Options := do
  let draft ← readWords {} (← classifyWords words)
  match draft.input with
  | none => .error .missingInput
  | some input =>
      if !draft.surplus.isEmpty then .error (.unrecognized draft.surplus)
      else
        return { input := input, outputDirectory := draft.outputDirectory, echo := draft.echo,
                 level := draft.level, recursionLimit := draft.recursionLimit }

end Options

end StackScript
