import StackScript.Command.Run
import StackScript.Proofs.Command.FileTree
import StackScript.Proofs.Command.Options
import StackScript.Proofs.Command.OutputName
import StackScript.Proofs.Text.Utf8

/-! # The output file and the exit code

A run that ends with an exit code has written exactly one file, and the code, the name and
the content of the file belong together. Where that file can be created, a run ends without a
code exactly if the recursion limit is refused, if the program file can be opened, but its bytes
are no text, evaluation or writing the stack breaks off, or the written stack has no bytes, or if
the output file is to be shown and cannot be read. What is then left of the file is part of the
account.
-/

namespace StackScript.Command

/-- The name of the program file. -/
def inputName (options : Options) : Text := (Path.ofText options.input).name

/-- The directory of the output file, and the place where it stands: the directory that is asked
for, or else the one in which the program file stands, if the path leads anywhere. -/
structure IsOutputDirectory (here : List Text) (tree : FileTree) (options : Options)
    (directory : Path) (inside : List Text) : Prop where
  named : ∀ given, options.outputDirectory = some given → directory = Path.ofText given
  enclosing : options.outputDirectory = none → ∀ file,
    tree.locate here (Path.ofText options.input) = .ok file → inside = file.dropLast

/-- What the bytes of a program come to under a recursion limit: a written stack, or what
breaks off. -/
inductive Yields (limit : Nat) (bytes : List UInt8) : Except Failure Text → Prop
  | undecodable {reason : Text.Undecodable} (hdecode : Text.decodeUtf8 bytes = .error reason) :
      Yields limit bytes (.error (.undecodable reason))
  | escaped {source : Text} {session : Session} {fault : Fault}
      (hsource : bytes = Text.encodeUtf8 source)
      (hrun : Session.runSource { limit := limit } (Text.unifyLineFeeds source) =
        (session, some fault)) :
      Yields limit bytes (.error (.fault fault))
  | unwritten {source : Text} {session : Session} {fault : Fault}
      (hsource : bytes = Text.encodeUtf8 source)
      (hrun : Session.runSource { limit := limit } (Text.unifyLineFeeds source) = (session, none))
      (hrender : session.render = .error fault) :
      Yields limit bytes (.error (.fault fault))
  | unencodable {source : Text} {session : Session} {content : Text} {reason : Text.Unencodable}
      (hsource : bytes = Text.encodeUtf8 source)
      (hrun : Session.runSource { limit := limit } (Text.unifyLineFeeds source) = (session, none))
      (hrender : session.render = .ok content)
      (hhalves : session.stack.unencodable? session.limit = some reason) :
      Yields limit bytes (.error (.unencodable reason))
  | written {source : Text} {session : Session} {content : Text}
      (hsource : bytes = Text.encodeUtf8 source)
      (hrun : Session.runSource { limit := limit } (Text.unifyLineFeeds source) = (session, none))
      (hrender : session.render = .ok content)
      (hhalves : session.stack.unencodable? session.limit = none) :
      Yields limit bytes (.ok content)

/-- The exit code of a run, with the name and the content of the file that it writes. -/
inductive Verdict (here : List Text) (tree : FileTree) (options : Options) (limit : Nat) :
    (code : Nat) → (name content : Text) → Prop
  | nameless (hname : ∀ before digits, ¬ OutputName.Occurs (inputName options) before digits) :
      Verdict here tree options limit 2 "output.txt".toList []
  | unreadable {digits : Text} {refusal : FileTree.Refusal}
      (hdigits : OutputName.IsLeftmost (inputName options) digits)
      (hread : tree.read here (Path.ofText options.input) = .error refusal) :
      Verdict here tree options limit 1 ("output-".toList ++ digits ++ ".txt".toList) []
  | completed {digits content : Text} {bytes : List UInt8}
      (hdigits : OutputName.IsLeftmost (inputName options) digits)
      (hread : tree.read here (Path.ofText options.input) = .ok bytes)
      (hyields : Yields limit bytes (.ok content)) :
      Verdict here tree options limit 0 ("output-".toList ++ digits ++ ".txt".toList) content

variable {host : Host} {here : List Text} {tree after : FileTree} {options : Options}
  {limit code : Nat} {directory : Path}

/-! ## Programs -/

/-- However its lines end, a program runs the same. -/
theorem runSource_unifyLineFeeds (session : Session) (source : Text) :
    session.runSource (Text.unifyLineFeeds source) = session.runSource source := by
  rw [Session.runSource, Text.lines_unifyLineFeeds, Session.runSource]

/-- Reads, evaluates and writes in one go. -/
def yield (limit : Nat) (bytes : List UInt8) : Except Failure Text :=
  match Text.decodeUtf8 bytes with
  | .error reason => .error (.undecodable reason)
  | .ok source =>
      match Session.runSource { limit := limit } (Text.unifyLineFeeds source) with
      | (_, some fault) => .error (.fault fault)
      | (session, none) =>
          match session.render, session.stack.unencodable? session.limit with
          | .error fault, _ => .error (.fault fault)
          | .ok _, some reason => .error (.unencodable reason)
          | .ok content, none => .ok content

theorem yields_iff {bytes : List UInt8} {outcome : Except Failure Text} :
    Yields limit bytes outcome ↔ yield limit bytes = outcome := by
  constructor
  · intro hyields
    cases hyields with
    | undecodable hdecode => simp only [yield, hdecode]
    | escaped hsource hrun => simp only [yield, Text.decodeUtf8_eq_ok_iff.2 hsource, hrun]
    | unwritten hsource hrun hrender =>
        simp only [yield, Text.decodeUtf8_eq_ok_iff.2 hsource, hrun, hrender]
    | unencodable hsource hrun hrender hhalves =>
        simp only [yield, Text.decodeUtf8_eq_ok_iff.2 hsource, hrun, hrender, hhalves]
    | written hsource hrun hrender hhalves =>
        simp only [yield, Text.decodeUtf8_eq_ok_iff.2 hsource, hrun, hrender, hhalves]
  · rintro rfl
    rw [yield]
    split
    next reason hdecode => exact .undecodable hdecode
    next source hdecode =>
      have hsource := Text.decodeUtf8_eq_ok_iff.1 hdecode
      split
      next session fault hrun => exact .escaped hsource hrun
      next session hrun =>
        split
        next fault hrender => exact .unwritten hsource hrun hrender
        next content reason hrender hhalves => exact .unencodable hsource hrun hrender hhalves
        next content hrender hhalves => exact .written hsource hrun hrender hhalves

theorem Yields.unique {bytes : List UInt8} {first second : Except Failure Text}
    (hfirst : Yields limit bytes first) (hsecond : Yields limit bytes second) : first = second :=
  (yields_iff.1 hfirst).symm.trans (yields_iff.1 hsecond)

/-! ## Output files -/

theorem output_ne_up (rest : Text) : "output".toList ++ rest ≠ Path.up := by
  intro heq
  cases heq

/-- The output directory is the one that is asked for, or else that of the program file. -/
theorem isOutputDirectory {name : Text} {inside place : List Text} {bytes : List UInt8}
    (hhere : tree.IsDirect here)
    (hdirectory : outputDirectory here tree options limit = .ok directory)
    (hwrites : tree.Writes after here directory name inside place bytes) :
    IsOutputDirectory here tree options directory inside := by
  refine ⟨fun given hgiven => ?_, fun hnone file hfile => ?_⟩
  · rw [outputDirectory, hgiven] at hdirectory
    exact (Except.ok.inj hdirectory).symm
  · rw [outputDirectory, hnone] at hdirectory
    rcases FileTree.resolve_of_locate hhere hfile with hdeep | hresolve
    · rw [hdeep] at hdirectory
      cases hdirectory
    · rw [hresolve] at hdirectory
      cases hdirectory
      have hdirect : after.IsDirect ([] ++ file.dropLast) :=
        hwrites.sustains.isDirect (FileTree.isDirect_of_locate hhere hfile).dropLast
      obtain ⟨links, -, hleads⟩ := FileTree.locate_eq_ok_iff.mp hwrites.directory_located
      exact hdirect.eq_of_leads hleads

/-- The run writes bytes to the output file and ends as said. If the file cannot be written, it
fails. -/
def Result.Leaves (result : Result) (here : List Text) (tree : FileTree) (directory : Path)
    (name : Text) (bytes : List UInt8) (ending : Ending) : Prop :=
  let attempt := tree.writeInto here directory name bytes
  result.tree = attempt.tree ∧ result.ending =
    match attempt.refused with
    | none => ending
    | some (refusal, path) => .failed (.refused refusal path)

theorem leaveEmpty_leaves (name : Text) (code : Nat) (log : String) :
    (leaveEmpty here tree directory name code log).Leaves here tree directory name []
      (.exit code) := ⟨rfl, rfl⟩

/-- Lone halves in the written stack leave an empty file. -/
theorem finish_unencodable {session : Session} {content : Text} {reason : Text.Unencodable}
    (name : Text) (hrender : session.render = .ok content)
    (hhalves : session.stack.unencodable? session.limit = some reason) :
    (finish here tree options directory name session).Leaves here tree directory name []
      (.failed (.unencodable reason)) := by
  simp only [finish, hrender, hhalves, Option.isSome_some, if_true, Result.Leaves]
  cases (tree.writeInto here directory name []).refused with
  | none => exact ⟨rfl, rfl⟩
  | some why => exact ⟨rfl, rfl⟩

/-- Any other written stack is left in the file, which is read back to be shown. -/
theorem finish_written {session : Session} {content : Text} (name : Text)
    (hrender : session.render = .ok content)
    (hhalves : session.stack.unencodable? session.limit = none) :
    let result := finish here tree options directory name session
    let path := directory.child name
    (options.echo = true → ∃ shown, result.tree.read here path = .ok shown) ∧
        result.Leaves here tree directory name (Text.encodeUtf8 content) (.exit 0) ∨
      ∃ refusal, options.echo = true ∧ result.tree.read here path = .error refusal ∧
        result.Leaves here tree directory name (Text.encodeUtf8 content)
          (.failed (.refused refusal path)) := by
  simp only [finish, hrender, hhalves, Option.isSome_none, Bool.false_eq_true, if_false,
    Result.Leaves]
  generalize tree.writeInto here directory name (Text.encodeUtf8 content) = attempt
  obtain ⟨after, refused⟩ := attempt
  cases hshown : after.read here (directory.child name) with
  | ok shown => cases refused <;> cases options.echo <;> simp [hshown]
  | error refusal => cases refused <;> cases options.echo <;> simp [hshown]

/-- A run that ends with a code has left the text in the output file. -/
theorem Result.Leaves.of_exit {result : Result} {name : Text} {bytes : List UInt8}
    {ending : Ending} (hname : name ≠ Path.up) (hexit : result.ending = .exit code)
    (hleaves : result.Leaves here tree directory name bytes ending) :
    ending = .exit code ∧
      ∃ inside place, tree.Writes result.tree here directory name inside place bytes := by
  obtain ⟨htree, hending⟩ := hleaves
  cases hrefused : (tree.writeInto here directory name bytes).refused with
  | none =>
      rw [hrefused] at hending
      have hwrite : tree.writeInto here directory name bytes = { tree := result.tree } := by
        rw [htree, ← hrefused]
      exact ⟨hending.symm.trans hexit, FileTree.writeInto_eq hname hwrite⟩
  | some why =>
      rw [hrefused, hexit] at hending
      cases hending

/-! ## Runs -/

/-- The ways that a run can take once it has a limit and a directory. -/
inductive Course (here : List Text) (tree : FileTree) (options : Options) (limit : Nat)
    (directory : Path) (result : Result) : Prop
  | nameless (hname : OutputName.identifier? (inputName options) = none)
      (hleaves : result.Leaves here tree directory OutputName.fallback [] (.exit 2))
  | unreadable {digits : Text} {refusal : FileTree.Refusal}
      (hdigits : OutputName.identifier? (inputName options) = some digits)
      (hread : tree.read here (Path.ofText options.input) = .error refusal)
      (hleaves : result.Leaves here tree directory
        ("output-".toList ++ digits ++ ".txt".toList) [] (.exit 1))
  | broken {digits : Text} {bytes : List UInt8} {failure : Failure}
      (hdigits : OutputName.identifier? (inputName options) = some digits)
      (hread : tree.read here (Path.ofText options.input) = .ok bytes)
      (hyields : Yields limit bytes (.error failure))
      (hfailure : ∀ reason, failure ≠ .unencodable reason)
      (hending : result.ending = .failed failure) (htree : result.tree = tree)
  | unencodable {digits : Text} {bytes : List UInt8} {reason : Text.Unencodable}
      (hdigits : OutputName.identifier? (inputName options) = some digits)
      (hread : tree.read here (Path.ofText options.input) = .ok bytes)
      (hyields : Yields limit bytes (.error (.unencodable reason)))
      (hleaves : result.Leaves here tree directory
        ("output-".toList ++ digits ++ ".txt".toList) [] (.failed (.unencodable reason)))
  | unshown {digits content : Text} {bytes : List UInt8} {refusal : FileTree.Refusal}
      (hdigits : OutputName.identifier? (inputName options) = some digits)
      (hread : tree.read here (Path.ofText options.input) = .ok bytes)
      (hyields : Yields limit bytes (.ok content)) (hecho : options.echo = true)
      (hshown : result.tree.read here
        (directory.child ("output-".toList ++ digits ++ ".txt".toList)) = .error refusal)
      (hleaves : result.Leaves here tree directory
        ("output-".toList ++ digits ++ ".txt".toList) (Text.encodeUtf8 content)
        (.failed (.refused refusal
          (directory.child ("output-".toList ++ digits ++ ".txt".toList)))))
  | completed {digits content : Text} {bytes : List UInt8}
      (hdigits : OutputName.identifier? (inputName options) = some digits)
      (hread : tree.read here (Path.ofText options.input) = .ok bytes)
      (hyields : Yields limit bytes (.ok content))
      (hshown : options.echo = true → ∃ shown, result.tree.read here
        (directory.child ("output-".toList ++ digits ++ ".txt".toList)) = .ok shown)
      (hleaves : result.Leaves here tree directory
        ("output-".toList ++ digits ++ ".txt".toList) (Text.encodeUtf8 content) (.exit 0))

theorem outputName_eq (options : Options) : outputName (Path.ofText options.input) =
    match OutputName.identifier? (inputName options) with
    | some digits => .ok ("output-".toList ++ digits ++ ".txt".toList)
    | none => .error (nameMessage (inputName options)) := by
  rw [outputName, OutputName.ofProgramName?, inputName]
  cases OutputName.identifier? (Path.ofText options.input).name <;> rfl

theorem execute_course (hdirectory : outputDirectory here tree options limit = .ok directory) :
    Course here tree options limit directory (execute here tree options limit) := by
  have hname := outputName_eq options
  rw [execute, hdirectory]
  cases hdigits : OutputName.identifier? (inputName options) with
  | none =>
      simp only [hdigits] at hname
      rw [hname]
      exact .nameless hdigits (leaveEmpty_leaves ..)
  | some digits =>
      simp only [hdigits] at hname
      rw [hname]
      cases hread : tree.read here (Path.ofText options.input) with
      | error refusal => exact .unreadable hdigits hread (leaveEmpty_leaves ..)
      | ok bytes =>
          cases hdecode : Text.decodeUtf8 bytes with
          | error reason =>
              simp only [hdecode]
              exact .broken hdigits hread (.undecodable hdecode) nofun rfl rfl
          | ok source =>
              have hsource := Text.decodeUtf8_eq_ok_iff.1 hdecode
              simp only [hdecode]
              split
              next session hrun =>
                cases hrender : session.render with
                | error fault =>
                    rw [finish, hrender]
                    exact .broken hdigits hread (.unwritten hsource hrun hrender) nofun rfl rfl
                | ok content =>
                    cases hhalves : session.stack.unencodable? session.limit with
                    | some reason =>
                        exact .unencodable hdigits hread
                          (.unencodable hsource hrun hrender hhalves)
                          (finish_unencodable _ hrender hhalves)
                    | none =>
                        have hyields := Yields.written hsource hrun hrender hhalves
                        rcases finish_written _ hrender hhalves with
                          ⟨hshown, hleaves⟩ | ⟨refusal, hecho, hshown, hleaves⟩
                        · exact .completed hdigits hread hyields hshown hleaves
                        · exact .unshown hdigits hread hyields hecho hshown hleaves
              next session fault hrun =>
                exact .broken hdigits hread (.escaped hsource hrun) nofun rfl rfl

variable {words : List Text}

/-- A run fails for want of a limit or of a directory, or takes its course. -/
theorem run_course (host : Host) (here : List Text) (tree : FileTree)
    (hwords : Options.read words = .ok options) :
    (∃ failure, chooseLimit host options = .error failure ∧
      (run here tree words host).ending = .failed failure ∧
      (run here tree words host).tree =
        if failure = .cutShort then host.leftover tree else tree) ∨
    ∃ limit, chooseLimit host options = .ok limit ∧
      ((∃ failure, outputDirectory here tree options limit = .error failure ∧
          (run here tree words host).ending = .failed failure) ∨
        ∃ directory, outputDirectory here tree options limit = .ok directory ∧
          Course here tree options limit directory (run here tree words host)) := by
  simp only [run, hwords]
  cases hlimit : chooseLimit host options with
  | error failure =>
      refine .inl ⟨failure, rfl, ?_⟩
      cases failure <;> exact ⟨rfl, rfl⟩
  | ok limit =>
      refine .inr ⟨limit, rfl, ?_⟩
      cases hdirectory : outputDirectory here tree options limit with
      | error failure =>
          refine .inl ⟨failure, rfl, ?_⟩
          simp only [execute, hdirectory]
      | ok directory => exact .inr ⟨directory, rfl, execute_course hdirectory⟩

theorem Verdict.code_eq_two_iff {name content : Text}
    (hverdict : Verdict here tree options limit code name content) :
    code = 2 ↔ ∀ before digits, ¬ OutputName.Occurs (inputName options) before digits := by
  cases hverdict with
  | nameless hname => exact ⟨fun _ => hname, fun _ => rfl⟩
  | unreadable hdigits | completed hdigits =>
      obtain ⟨before, hoccurs, -⟩ := hdigits
      exact ⟨nofun, fun hname => absurd hoccurs (hname before _)⟩

theorem Verdict.code_eq_one_iff {name content : Text}
    (hverdict : Verdict here tree options limit code name content) :
    code = 1 ↔ (∃ before digits, OutputName.Occurs (inputName options) before digits) ∧
      ∃ refusal, tree.read here (Path.ofText options.input) = .error refusal := by
  cases hverdict with
  | nameless hname =>
      refine ⟨nofun, ?_⟩
      rintro ⟨⟨before, digits, hoccurs⟩, -⟩
      exact absurd hoccurs (hname before digits)
  | unreadable hdigits hread =>
      obtain ⟨before, hoccurs, -⟩ := hdigits
      exact ⟨fun _ => ⟨⟨before, _, hoccurs⟩, _, hread⟩, fun _ => rfl⟩
  | completed hdigits hread =>
      refine ⟨nofun, ?_⟩
      rintro ⟨-, refusal, hrefused⟩
      rw [hread] at hrefused
      cases hrefused

/-- A run that ends with a code has written the file that belongs to the code. -/
theorem Course.verdict_of_exit {result : Result}
    (hcourse : Course here tree options limit directory result)
    (hexit : result.ending = .exit code) :
    ∃ name content inside place, Verdict here tree options limit code name content ∧
      tree.Writes result.tree here directory name inside place (Text.encodeUtf8 content) := by
  cases hcourse with
  | nameless hname hleaves =>
      obtain ⟨hcode, inside, place, hwrites⟩ := hleaves.of_exit (output_ne_up _) hexit
      cases hcode
      exact ⟨_, [], inside, place, .nameless (OutputName.identifier?_eq_none_iff.1 hname), hwrites⟩
  | unreadable hdigits hread hleaves =>
      obtain ⟨hcode, inside, place, hwrites⟩ := hleaves.of_exit (output_ne_up _) hexit
      cases hcode
      exact ⟨_, [], inside, place,
        .unreadable (OutputName.isLeftmost_of_identifier? hdigits) hread, hwrites⟩
  | broken hdigits hread hyields hfailure hending htree =>
      rw [hexit] at hending
      cases hending
  | unencodable hdigits hread hyields hleaves =>
      cases (hleaves.of_exit (output_ne_up _) hexit).1
  | unshown hdigits hread hyields hecho hshown hleaves =>
      cases (hleaves.of_exit (output_ne_up _) hexit).1
  | completed hdigits hread hyields hshown hleaves =>
      obtain ⟨hcode, inside, place, hwrites⟩ := hleaves.of_exit (output_ne_up _) hexit
      cases hcode
      exact ⟨_, _, inside, place,
        .completed (OutputName.isLeftmost_of_identifier? hdigits) hread hyields, hwrites⟩

/-- A run that ends with an exit code has created or overwritten one file, in the directory that
is asked for or else in that of the program file, and has left all others as they were. Code, name
and content of the file belong together: two if the name of the program file has no identifier,
one if the program file has one and cannot be read. -/
theorem run_writes (hwords : Options.read words = .ok options) (hhere : tree.IsDirect here)
    (hexit : (run here tree words host).ending = .exit code) :
    ∃ limit directory name content inside place, chooseLimit host options = .ok limit ∧
      outputDirectory here tree options limit = .ok directory ∧
      IsOutputDirectory here tree options directory inside ∧
      Verdict here tree options limit code name content ∧
      tree.Writes (run here tree words host).tree here directory name inside place
        (Text.encodeUtf8 content) ∧
      (code = 2 ↔ ∀ before digits, ¬ OutputName.Occurs (inputName options) before digits) ∧
      (code = 1 ↔ (∃ before digits, OutputName.Occurs (inputName options) before digits) ∧
        ∃ refusal, tree.read here (Path.ofText options.input) = .error refusal) := by
  rcases run_course host here tree hwords with ⟨failure, -, hending, -⟩ |
    ⟨limit, hlimit, ⟨failure, -, hending⟩ | ⟨directory, hdirectory, hcourse⟩⟩
  · rw [hexit] at hending
    cases hending
  · rw [hexit] at hending
    cases hending
  · obtain ⟨name, content, inside, place, hverdict, hwrites⟩ := hcourse.verdict_of_exit hexit
    exact ⟨limit, directory, name, content, inside, place, hlimit, hdirectory,
      isOutputDirectory hhere hdirectory hwrites, hverdict, hwrites, hverdict.code_eq_two_iff,
      hverdict.code_eq_one_iff⟩

/-- A program with a carriage return in it, to which a link leads: its output goes to where the
program is. -/
theorem run_writes_linked :
    let here : List Text := ["w".toList]
    let tree : FileTree :=
      { entries := [(["w".toList], .directory),
          (["w".toList, "input-007.txt".toList], .link (Path.ofText "../data/sum".toList)),
          (["data".toList], .directory),
          (["data".toList, "sum".toList], .file (Text.encodeUtf8 "1 2 +\r4".toList))] }
    let words : List Text := ["--print".toList, "input-007.txt".toList]
    let options : Options := { input := "input-007.txt".toList, echo := true }
    Options.read words = .ok options ∧ tree.IsDirect here ∧
      (run here tree words).ending = .exit 0 ∧
      FileTree.entry? (run here tree words).tree ["data".toList, "output-007.txt".toList] =
        some (.file (Text.encodeUtf8 "3\n4".toList)) ∧
      ∃ limit directory name content place, chooseLimit {} options = .ok limit ∧
        Verdict here tree options limit 0 name content ∧
        tree.Writes (run here tree words).tree here directory name ["data".toList] place
          (Text.encodeUtf8 content) := by
  intro here tree words options
  have hplain : ∀ argument ∈ ([.echo, .input options.input] : List Options.Argument),
      argument.IsPlain := by
    simp only [List.forall_mem_cons, List.not_mem_nil, false_implies, implies_true, and_true]
    exact ⟨trivial, Options.isPlain_of_head? (by decide)⟩
  have hwords : Options.read words = .ok options := Options.read_arguments hplain rfl
  have hhere : tree.IsDirect here := ⟨by decide, fun target => nofun, by decide⟩
  have hexit : (run here tree words).ending = .exit 0 := by decide +kernel
  obtain ⟨limit, directory, name, content, inside, place, hlimit, -, hinside, hverdict, hwrites,
    -⟩ := run_writes hwords hhere hexit
  have hfile : tree.locate here (Path.ofText options.input) =
      .ok ["data".toList, "sum".toList] := by decide +kernel
  obtain rfl : inside = ["data".toList] := hinside.enclosing rfl _ hfile
  exact ⟨hwords, hhere, hexit, by decide +kernel, limit, directory, name, content, place, hlimit,
    hverdict, hwrites⟩

end StackScript.Command
