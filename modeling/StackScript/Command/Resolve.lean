import StackScript.Command.FileTree

/-! # Resolving paths

A path is resolved by putting in for each link on it what the link leads to. What is missing
or cannot be looked at is left as it is written, so that a path is resolved whether or not it
leads anywhere. Only a circle of links stops that: the rest of the path is then left alone, and
if it still cannot be followed, there is no resolved path.
-/

namespace StackScript

namespace FileTree

/-- The target of the link that a path names, if it names one. -/
def target? (tree : FileTree) (here : List Text) (p : Path) : Option Path :=
  match tree.locateName here p with
  | .error _ => none
  | .ok place =>
      match tree.entry? place with
      | some (.link target) => some target
      | _ => none

/-- Why a path is not resolved. -/
inductive Obstacle where
  /-- Too many links lead through one another. -/
  | tooDeep
  | circle (p : Path)
  deriving DecidableEq, Repr

/-- A path with its links put in, or left alone behind a link that leads back to itself. -/
inductive Trace where
  | clear (p : Path)
  | circle (p : Path)
  deriving DecidableEq, Repr

/-- The path itself. -/
def Trace.path : Trace → Path
  | .clear p => p
  | .circle p => p

/-- Puts names behind a path, given what is put in for a link with a target. -/
def expandNames (tree : FileTree) (here : List Text)
    (putIn : (link target : Path) → Except Obstacle Trace) (p : Path) :
    List Text → Except Obstacle Trace
  | [] => .ok (.clear p)
  | name :: rest =>
      if name == Path.up then tree.expandNames here putIn p.back rest
      else match tree.target? here (p.child name) with
        | none => tree.expandNames here putIn (p.child name) rest
        | some target => do
            match ← putIn (p.child name) target with
            | .clear p => tree.expandNames here putIn p rest
            | .circle p => return .circle { p with names := p.names ++ rest }

/-- Puts names behind a path and puts in the links among them. The links in `pending` are being
put in already. A link within another takes one of the `depth` nested calls that are left. -/
def expand (tree : FileTree) (here : List Text) (depth : Nat) (pending : List Path) (p : Path)
    (names : List Text) : Except Obstacle Trace :=
  tree.expandNames here (fun link target =>
    if pending.contains link then .ok (.circle link)
    else match depth with
      | 0 => .error .tooDeep
      | depth + 1 =>
          tree.expand here depth (link :: pending) (Path.base link.parent target) target.names)
    p names

/-- The path as it looks from the root, without links. -/
def resolve (tree : FileTree) (here : List Text) (depth : Nat) (p : Path) :
    Except Obstacle Path := do
  let found := (← tree.expand here depth [] (Path.base ⟨[], []⟩ p) p.names).path
  let resolved : Path := ⟨['/'], Path.follow (found.start here) found.names⟩
  match tree.locate here resolved with
  | .error .loop => .error (.circle resolved)
  | _ => return resolved

end FileTree

end StackScript
