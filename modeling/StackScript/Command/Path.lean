import StackScript.Text.Quoted

/-! # Paths

A path names a file by the directories on the way to it. Empty components and those that stay
in place are dropped when a path is read, so that a path is written in one way only.
-/

namespace StackScript

/-- A way through directories. -/
structure Path where
  /-- The slashes that the path begins with: none, one, or exactly two. -/
  root : Text
  /-- The names on the way, none of them empty or a single dot. -/
  names : List Text
  deriving DecidableEq, Repr

namespace Path

/-- The component that leads to the enclosing directory. -/
def up : Text := ['.', '.']

/-- Cuts a text at its slashes. -/
def splitSlashes : Text → List Text
  | [] => [[]]
  | c :: rest =>
      if c == '/' then [] :: splitSlashes rest
      else match splitSlashes rest with
        | [] => [[c]]
        | name :: more => (c :: name) :: more

/-- Reads a path. -/
def ofText (t : Text) : Path :=
  let slashes := (t.takeWhile (· == '/')).length
  let root := if slashes = 2 then ['/', '/'] else if slashes = 0 then [] else ['/']
  ⟨root, (splitSlashes t).filter fun name => !name.isEmpty && name != ['.']⟩

/-- The written path; a single dot if it leads nowhere. -/
def toText (p : Path) : Text :=
  if p.root.isEmpty && p.names.isEmpty then ['.']
  else p.root ++ Text.join ['/'] p.names

/-- The last component, if there is one. -/
def name (p : Path) : Text := p.names.getLastD []

/-- The path without its last component. -/
def parent (p : Path) : Path := { p with names := p.names.dropLast }

/-- The path of a file inside a directory. -/
def child (p : Path) (name : Text) : Path := { p with names := p.names ++ [name] }

/-- Follows names from a place, where `..` leads back one step. -/
def follow (place : List Text) (names : List Text) : List Text :=
  names.foldl (fun here name => if name == up then here.dropLast else here ++ [name]) place

/-- The place from which a path is followed, if it is met in the directory `here`. -/
def start (here : List Text) (p : Path) : List Text := if p.root.isEmpty then here else []

/-- The path from which a path is followed, if it is met in the directory of another. -/
def base (directory p : Path) : Path := if p.root.isEmpty then directory else ⟨['/'], []⟩

/-- The path to the enclosing directory, which is not looked at. -/
def back (p : Path) : Path :=
  if (p.root.isEmpty && p.names.isEmpty) || p.names.getLast? == some up then p.child up
  else p.parent

/-- The places on the way along a path that is met in the directory `here`. -/
def places (here : List Text) (p : Path) : List (List Text) :=
  (List.range (p.names.length + 1)).map fun count => follow (p.start here) (p.names.take count)

end Path

end StackScript
