import StackScript.Command.Options

/-! # Command lines read back

A command line made of one program file, of output directories and of requests to show the
stack, in any order, asks for just that. The last directory named is the one that counts.
-/

namespace StackScript.Options

/-- A part of a command line. -/
inductive Argument where
  | input (path : Text)
  | outputDirectory (directory : Text)
  | echo
  deriving DecidableEq, Repr

/-- The word is taken for neither an option nor the end of the options. -/
def IsPlain (t : Text) : Prop := classifyWord t = .ok (.plain t)

namespace Argument

/-- The words that spell a part. -/
def words : Argument → List Text
  | .input path => [path]
  | .outputDirectory directory => ["--output-dir".toList, directory]
  | .echo => ["--print".toList]

/-- What these words are. -/
def classified : Argument → List Word
  | .input path => [.plain path]
  | .outputDirectory directory => [.flag .outputDirectory none, .plain directory]
  | .echo => [.flag .echo none]

/-- The names in a part can be told from options. -/
def IsPlain : Argument → Prop
  | .input t | .outputDirectory t => Options.IsPlain t
  | .echo => True

/-- The program file, if the part names it. -/
def path? : Argument → Option Text
  | .input path => some path
  | _ => none

/-- The output directory, if the part names one. -/
def directory? : Argument → Option Text
  | .outputDirectory directory => some directory
  | _ => none

/-- What has been read once the part has. -/
def add (draft : Draft) : Argument → Draft
  | .input path => { draft with input := some path }
  | .outputDirectory directory => { draft with outputDirectory := some directory }
  | .echo => { draft with echo := true }

end Argument

/-- A word that does not begin with a dash is plain. -/
theorem isPlain_of_head? {t : Text} (hhead : t.head? ≠ some '-') : IsPlain t := by
  rw [IsPlain, classifyWord, if_pos (by simp [hhead])]

theorem IsPlain.ne_dashes {t : Text} (hplain : IsPlain t) : t ≠ ['-', '-'] := by
  rintro rfl
  have hambiguous : (classifyWord ['-', '-']).isOk = false := by decide +kernel
  rw [hplain] at hambiguous
  cases hambiguous

theorem classifyWords_cons {t : Text} {word : Word} {rest : List Text} {more : List Word}
    (hdashes : t ≠ ['-', '-']) (hword : classifyWord t = .ok word)
    (hrest : classifyWords rest = .ok more) : classifyWords (t :: rest) = .ok (word :: more) := by
  rw [classifyWords, if_neg (by simpa using hdashes), hword, hrest]
  rfl

theorem classifyWords_arguments {arguments : List Argument}
    (hplain : ∀ argument ∈ arguments, argument.IsPlain) :
    classifyWords (arguments.flatMap Argument.words) =
      .ok (arguments.flatMap Argument.classified) := by
  induction arguments with
  | nil => rfl
  | cons argument rest ih =>
      rw [List.forall_mem_cons] at hplain
      have hrest := ih hplain.2
      cases argument with
      | input path => exact classifyWords_cons hplain.1.ne_dashes hplain.1 hrest
      | outputDirectory directory =>
          exact classifyWords_cons (by decide) rfl
            (classifyWords_cons hplain.1.ne_dashes hplain.1 hrest)
      | echo => exact classifyWords_cons (by decide) rfl hrest

/-- No command line of such parts begins with the pair of dashes. -/
theorem classified_ne_dashes (arguments : List Argument) (rest : List Word) :
    arguments.flatMap Argument.classified ≠ .dashes :: rest := by
  cases arguments with
  | nil => exact nofun
  | cons argument more => cases argument <;> exact nofun

theorem readWords_plain {draft : Draft} {t : Text} {words : List Word}
    (hinput : draft.input = none) (hwords : ∀ rest, words ≠ .dashes :: rest) :
    readWords draft (.plain t :: words) = readWords { draft with input := some t } words := by
  cases words with
  | nil => simp [readWords, hinput]
  | cons word rest =>
      cases word with
      | dashes => exact absurd rfl (hwords rest)
      | _ => simp [readWords, hinput]

theorem readWords_echo (draft : Draft) (words : List Word) :
    readWords draft (.flag .echo none :: words) = readWords { draft with echo := true } words := by
  have hswitch : Flag.echo.isSwitch = true := rfl
  conv => lhs; unfold readWords
  rw [if_pos hswitch]
  rfl

/-- Parts that name at most one program file are read one after the other. -/
theorem readWords_arguments {draft : Draft} {arguments : List Argument}
    (hinput : (draft.input.toList ++ arguments.filterMap Argument.path?).length ≤ 1) :
    readWords draft (arguments.flatMap Argument.classified) =
      .ok (arguments.foldl Argument.add draft) := by
  induction arguments generalizing draft with
  | nil => rw [List.flatMap_nil, readWords, List.foldl_nil]
  | cons argument rest ih =>
      rw [List.flatMap_cons, List.foldl_cons]
      cases argument with
      | input path =>
          simp only [List.filterMap_cons, Argument.path?, List.length_append,
            List.length_cons] at hinput
          have hnone : draft.input = none :=
            Option.toList_eq_nil_iff.1 (List.eq_nil_of_length_eq_zero (by omega))
          have hadded : readWords (Argument.add draft (.input path))
              (rest.flatMap Argument.classified) = _ := ih (by
            rw [List.length_append, Argument.add, Option.toList_some, List.length_singleton]
            omega)
          rw [← hadded]
          exact readWords_plain hnone (classified_ne_dashes rest)
      | outputDirectory directory =>
          simp only [List.filterMap_cons, Argument.path?] at hinput
          exact ih hinput
      | echo =>
          simp only [List.filterMap_cons, Argument.path?] at hinput
          have hadded : readWords (Argument.add draft .echo)
              (rest.flatMap Argument.classified) = _ := ih hinput
          rw [← hadded]
          exact readWords_echo draft _

theorem foldl_add (draft : Draft) (arguments : List Argument) :
    arguments.foldl Argument.add draft =
      { draft with
        input := ((arguments.filterMap Argument.path?).getLast?).or draft.input
        outputDirectory :=
          ((arguments.filterMap Argument.directory?).getLast?).or draft.outputDirectory
        echo := draft.echo || decide (.echo ∈ arguments) } := by
  induction arguments generalizing draft with
  | nil => simp
  | cons argument rest ih =>
      rw [List.foldl_cons, ih]
      cases argument <;>
        simp [Argument.add, Argument.path?, Argument.directory?, List.getLast?_cons]

/-- A command line of one program file, of output directories and of requests to show the
stack asks for these, in whatever order they stand. -/
theorem read_arguments {arguments : List Argument} {path : Text}
    (hplain : ∀ argument ∈ arguments, argument.IsPlain)
    (hpath : arguments.filterMap Argument.path? = [path]) :
    Options.read (arguments.flatMap Argument.words) =
      .ok { input := path
            outputDirectory := (arguments.filterMap Argument.directory?).getLast?
            echo := decide (.echo ∈ arguments) } := by
  have hread : readWords {} (arguments.flatMap Argument.classified) =
      .ok (arguments.foldl Argument.add {}) := readWords_arguments (by simp [hpath])
  rw [read, classifyWords_arguments hplain]
  simp only [bind, Except.bind, hread, foldl_add, hpath]
  simp [pure, Except.pure]

end StackScript.Options
