import StackScript.Command.Path
import StackScript.Text.Utf8

/-! # File trees

The files and directories that a command can see and change. A place is the list of names
that lead there from the root, which is always a directory. A path is followed name by name,
and links are followed as they come. A file may have names at several places, and a place may
bar what its permissions do not grant.

What a tree does not show: pipes and devices; owners, dates and the sticky bit; file systems
that are full or read-only; a greatest length for names and paths; names whose bytes are no
text. The target of a link is a path, so that doubled slashes in it, or a slash or a dot at its
end, make no difference. What a command makes bars nothing. Nothing but the command changes
the tree while it runs.
-/

namespace StackScript

/-- What stands at a place. -/
inductive FileTree.Entry where
  | directory
  | file (bytes : List UInt8)
  /-- A symbolic link to where the path leads. -/
  | link (target : Path)
  /-- A further name of the file at the place `home`. -/
  | twin (home : List Text)
  deriving DecidableEq, Repr

/-- What can be done to a file or a directory. To change a directory is to put new names into
it, and to enter it is to look up its names. -/
inductive FileTree.Access where
  | read
  | write
  | enter
  deriving DecidableEq, Repr

/-- The places that are taken, the newest entry for a place first, and the accesses that
places bar. -/
structure FileTree where
  entries : List (List Text × FileTree.Entry) := []
  barred : List (List Text × FileTree.Access) := []
  deriving DecidableEq, Repr

namespace FileTree

/-- Why something cannot be done to a place. -/
inductive Refusal where
  | missing
  | notDirectory
  | isDirectory
  | exists
  | denied
  | loop
  deriving DecidableEq, Repr

namespace Refusal

/-- The reason in words. -/
def reason : Refusal → String
  | .missing => "No such file or directory"
  | .notDirectory => "Not a directory"
  | .isDirectory => "Is a directory"
  | .exists => "File exists"
  | .denied => "Permission denied"
  | .loop => "Too many levels of symbolic links"

/-- The number of the reason. -/
def number : Refusal → Nat
  | .missing => 2
  | .notDirectory => 20
  | .isDirectory => 21
  | .exists => 17
  | .denied => 13
  | .loop => 40

/-- The name under which a refusal is reported. -/
def name : Refusal → String
  | .missing => "FileNotFoundError"
  | .notDirectory => "NotADirectoryError"
  | .isDirectory => "IsADirectoryError"
  | .exists => "FileExistsError"
  | .denied => "PermissionError"
  | .loop => "OSError"

end Refusal

/-- What stands at a place, if anything does. -/
def entry? (tree : FileTree) (place : List Text) : Option Entry :=
  if place.isEmpty then some .directory
  else (tree.entries.find? fun e => e.1 == place).map Prod.snd

/-- Does the place grant an access? -/
def grants (tree : FileTree) (access : Access) (place : List Text) : Bool :=
  !tree.barred.contains (place, access)

/-- Puts an entry at a place. -/
def set (tree : FileTree) (place : List Text) (entry : Entry) : FileTree :=
  { tree with entries := (place, entry) :: tree.entries.filter fun e => e.1 != place }

/-! ## Following paths -/

/-- Can names be looked up at the place? -/
def enter (tree : FileTree) (place : List Text) : Except Refusal Unit :=
  match tree.entry? place with
  | none => .error .missing
  | some .directory => if tree.grants .enter place then .ok () else .error .denied
  | some _ => .error .notDirectory

/-- How far names lead. -/
inductive Reach where
  | place (place : List Text)
  /-- Up to a link in a directory; the names in `rest` come after it. -/
  | link (directory : List Text) (target : Path) (rest : List Text)
  deriving DecidableEq, Repr

/-- Follows names up to the first link. Nothing need stand at the last place. -/
def advance (tree : FileTree) (here : List Text) : List Text → Except Refusal Reach
  | [] => .ok (.place here)
  | name :: rest => do
      tree.enter here
      if name == Path.up then tree.advance here.dropLast rest
      else match tree.entry? (here ++ [name]) with
        | some (.link target) => return .link here target rest
        | _ => tree.advance (here ++ [name]) rest

/-- Follows names, and at most `links` links. -/
def walk (tree : FileTree) (links : Nat) (here names : List Text) : Except Refusal (List Text) := do
  match ← tree.advance here names with
  | .place place => return place
  | .link directory target rest =>
      match links with
      | 0 => .error .loop
      | links + 1 => tree.walk links (target.start directory) (target.names ++ rest)

/-- How many links are followed on the way along a path. -/
def linkLimit : Nat := 40

/-- The place of a path that is met in the directory `here`. -/
def locate (tree : FileTree) (here : List Text) (p : Path) : Except Refusal (List Text) :=
  tree.walk linkLimit (p.start here) p.names

/-- The place of a path whose last name is not followed if it is that of a link. -/
def locateName (tree : FileTree) (here : List Text) (p : Path) : Except Refusal (List Text) := do
  let directory ← tree.locate here p.parent
  tree.enter directory
  return directory ++ [p.name]

/-- What a path leads to. -/
def find (tree : FileTree) (here : List Text) (p : Path) : Except Refusal Entry := do
  match tree.entry? (← tree.locate here p) with
  | some entry => return entry
  | none => .error .missing

/-! ## Files -/

/-- The place that holds the bytes of the file at a place. -/
def home (tree : FileTree) (place : List Text) : List Text :=
  match tree.entry? place with
  | some (.twin home) => home
  | _ => place

/-- The bytes of a file. -/
def read (tree : FileTree) (here : List Text) (p : Path) : Except Refusal (List UInt8) := do
  let place := tree.home (← tree.locate here p)
  match tree.entry? place with
  | some (.file bytes) => if tree.grants .read place then return bytes else .error .denied
  | some .directory => .error (if tree.grants .read place then .isDirectory else .denied)
  | _ => .error .missing

/-- Writes a file, over an old one if there is one. -/
def write (tree : FileTree) (here : List Text) (p : Path) (bytes : List UInt8) :
    Except Refusal FileTree := do
  let place := tree.home (← tree.locate here p)
  -- an old file is itself changed, a new one changes its directory
  let changed ← match tree.entry? place with
    | some (.file _) => pure place
    | some .directory => .error .isDirectory
    | some _ => .error .missing
    | none => pure place.dropLast
  if tree.grants .write changed then return tree.set place (.file bytes) else .error .denied

/-! ## Directories -/

/-- Makes a directory where nothing stands yet. -/
def makeDirectory (tree : FileTree) (here : List Text) (p : Path) : Except Refusal FileTree := do
  if p.names.isEmpty then .error .exists
  else
    let place ← tree.locateName here p
    if p.name == Path.up || (tree.entry? place).isSome then .error .exists
    else if tree.grants .write place.dropLast then return tree.set place .directory
    else .error .denied

/-- Makes a directory unless there is one. A refusal comes with the path it is about. -/
def requireDirectory (tree : FileTree) (here : List Text) (p : Path) :
    Except (Refusal × Path) FileTree :=
  match tree.makeDirectory here p with
  | .ok made => .ok made
  | .error refusal =>
      match tree.find here p with
      | .ok .directory => .ok tree
      | .error .denied => .error (.denied, p)
      | _ => .error (refusal, p)

/-- What is left of an attempt to change a tree, and what was refused if it did not succeed. -/
structure Attempt where
  tree : FileTree
  refused : Option (Refusal × Path) := none
  deriving DecidableEq, Repr

/-- Goes on with one more change. If that is refused, the changes before it remain. -/
def Attempt.andThen (attempt : Attempt)
    (change : FileTree → Except (Refusal × Path) FileTree) : Attempt :=
  match attempt.refused with
  | some _ => attempt
  | none =>
      match change attempt.tree with
      | .ok tree => { tree := tree }
      | .error refused => { tree := attempt.tree, refused := some refused }

/-- Makes a directory and those on the way to it. The directories on the way are made only if
the first attempt finds them missing. `count` is the number of names in the path. -/
def makeDirectories (tree : FileTree) (here : List Text) : (count : Nat) → Path → Attempt
  | 0, p => Attempt.andThen { tree := tree } (·.requireDirectory here p)
  | count + 1, p =>
      let parents := match tree.makeDirectory here p with
        | .error .missing => tree.makeDirectories here count p.parent
        | _ => { tree := tree }
      parents.andThen (·.requireDirectory here p)

/-- Writes a file in the directory `directory`, which is made if need be. -/
def writeInto (tree : FileTree) (here : List Text) (directory : Path) (name : Text)
    (bytes : List UInt8) : Attempt :=
  let p := directory.child name
  (tree.makeDirectories here directory.names.length directory).andThen fun made =>
    (made.write here p bytes).mapError (·, p)

end FileTree

end StackScript
