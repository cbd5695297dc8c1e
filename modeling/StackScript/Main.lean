import StackScript.Command.Run

/-! # The command

Looks at the files that the command line speaks of, runs, and carries out the changes. A link
counts as one to where it finally leads, or to itself if it leads nowhere. That a place bars
something shows when a file is read or when the changes are carried out.
-/

namespace StackScript.Main

/-- The name of a place in the file system. -/
def placeName (place : List Text) : String := String.ofList ('/' :: Text.join ['/'] place)

/-- The place without links that a place leads to, if it leads to one. -/
def realPlace? (place : List Text) : IO (Option (List Text)) := do
  try
    let path ← IO.FS.realPath (placeName place)
    return some (Path.ofText path.toString.toList).names
  catch _ => return none

/-- Adds what stands at a place to a tree. -/
def observe (tree : FileTree) (place : List Text) : IO FileTree := do
  let path := (← IO.currentDir) / placeName place
  let found ← try pure (some (← path.symlinkMetadata).type) catch _ => pure none
  match found with
  | none => return tree
  | some .dir => return tree.set place .directory
  | some .symlink =>
      return tree.set place (.link ⟨['/'], (← realPlace? place).getD place⟩)
  | some _ =>
      try return tree.set place (.file (← IO.FS.readBinFile (placeName place)).toList)
      catch _ =>
        let tree := tree.set place (.file [])
        return { tree with barred := (place, .read) :: tree.barred }

/-- Adds what stands at a place and on the way there. -/
def observeWay (tree : FileTree) (place : List Text) : IO FileTree :=
  (List.range place.length).foldlM (fun tree count => observe tree (place.take (count + 1))) tree

/-- Adds what is met on the way along a path. -/
def survey (here : List Text) (tree : FileTree) (p : Path) : IO FileTree := do
  let mut tree := tree
  for place in p.places here do
    if let some directory := ← realPlace? place.dropLast then
      let place := directory ++ place.drop (place.length - 1)
      tree ← observeWay tree place
      if let some (.link target) := tree.entry? place then
        tree ← observeWay tree target.names
  return tree

/-- Looks at all that a run of the command line may look at. -/
def surveyAll (here words : List Text) : IO FileTree := do
  let tree ← observeWay {} here
  match Options.read words with
  | .error _ => return tree
  | .ok options =>
      let input := Path.ofText options.input
      let tree ← survey here tree input
      match Command.outputDirectory here tree options defaultLimit with
      | .error _ => return tree
      | .ok directory =>
          let outputs := OutputName.fallback :: (OutputName.ofProgramName? input.name).toList
          outputs.foldlM (fun tree name => survey here tree (directory.child name)) tree

/-- Carries out what `after` has and `before` has not. -/
def carryOut (before after : FileTree) : IO Unit := do
  for (place, entry) in after.entries.reverse do
    if before.entry? place != some entry then
      match entry with
      | .directory => IO.FS.createDir (placeName place)
      | .file bytes => IO.FS.writeBinFile (placeName place) ⟨bytes.toArray⟩
      | .link _ | .twin _ => pure ()

/-- Runs a command line and returns its exit code. -/
def run (words : List Text) : IO UInt32 := do
  let here := (Path.ofText (← IO.currentDir).toString.toList).names
  let tree ← surveyAll here words
  let result := Command.run here tree words
  carryOut tree result.tree
  (← IO.getStderr).putStr result.log
  (← IO.getStdout).putStr result.output
  match result.ending with
  | .exit code => return code.toUInt32
  | .failed failure =>
      (← IO.getStderr).putStrLn s!"{failure.name}: {failure.message}"
      return 1

end StackScript.Main

/-- Runs the command line. -/
def main (args : List String) : IO UInt32 :=
  StackScript.Main.run (args.map String.toList)
