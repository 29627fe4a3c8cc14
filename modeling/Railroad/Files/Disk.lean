/-
# Disks

A disk is a tree of files together with the directory in it that one is in.  Paths are followed
from there, or from the root: every step but the last must have led to a directory, and so must the
last one if it has no name.  The root is its own outer directory.

This is the disk that runs are proved on.  It knows what a run can meet: files in the way, names
that are too long, directories that are missing, texts that are no text.  It knows no links, so a
place has one sequence of names, and nothing else happens to it than what the run does.

A path is followed in two ways.  `locate` asks for something that is there; `target` asks for a
place in a directory that is there, whether anything stands at that place or not, and that is what
is written to.
-/
import Railroad.Files.Tree

namespace Railroad

/-- **A tree of files and the directory one is in,** as the names that lead there.  The directory
need not be there: a path that starts from it then leads nowhere. -/
structure Disk where
  root : FileTree
  here : List String := []

/-- Why a path cannot be followed to its end. -/
inductive Obstacle where
  /-- Nothing stands there. -/
  | missing
  /-- A file stands in the way, something is there already, or the path cannot be used at all. -/
  | blocked
deriving Repr, DecidableEq

namespace Disk

/-! ## 1. Following paths -/

/-- A name can stand in a directory. -/
def checkName (name : String) : Except Obstacle Unit :=
  if name.utf8ByteSize ≤ Path.longestName then .ok () else .error .blocked

/-- A place is a directory.  It is given as names, the last one first. -/
def checkDirectory (d : Disk) (place : List String) : Except Obstacle Unit :=
  if d.root.hasDirectory place.reverse then .ok () else .error .blocked

/-- **Follows steps** from a place.  A step can only be taken from a directory that is there, even
one that stays or goes up. -/
def follow (d : Disk) (place : List String) : List Path.Step → Except Obstacle (List String)
  | [] => .ok place
  | step :: steps => do
    d.checkDirectory place
    match step with
    | .stay => d.follow place steps
    | .up => d.follow place.tail steps
    | .into name =>
      checkName name
      if (d.root.get? (name :: place).reverse).isNone then throw .missing
      d.follow (name :: place) steps

/-- The place a path starts from, if it can be followed at all. -/
def start (d : Disk) (path : String) : Except Obstacle (List String) := do
  if path.isEmpty then throw .missing
  if !Path.isUsable path then throw .blocked
  return if Path.isAbsolute path then [] else d.here.reverse

/-- **The names that a path leads along,** from the root on. -/
def locate (d : Disk) (path : String) : Except Obstacle (List String) := do
  return (← d.follow (← d.start path) (Path.steps path)).reverse

/-- What a path leads to. -/
def at? (d : Disk) (path : String) : Option FileTree := do
  d.root.get? (← (d.locate path).toOption)

/-- A path leads to a directory. -/
def isDirectory (d : Disk) (path : String) : Bool := ((d.at? path).map FileTree.isDirectory).getD false

/-! ## 2. Reading and writing -/

/-- **The text of a file,** if the path leads to one and it holds text. -/
def read? (d : Disk) (path : String) : Option String :=
  match d.at? path with
  | some (.file content) => String.fromUTF8? content
  | _ => none

/-- The names that lead to what the last step of a path names, which need not be there. -/
def target (d : Disk) (place : List String) (steps : List Path.Step) :
    Except Obstacle (List String) := do
  let directory ← d.follow place steps.dropLast
  d.checkDirectory directory
  match steps.getLast? with
  | some (.into name) =>
    checkName name
    return (name :: directory).reverse
  | _ => throw .blocked

/-- **The disk with a text in the file** that a path leads to.  An old file is replaced; the
directory it is in must be there.  What stood in the file is gone, and nothing else is changed. -/
def write (d : Disk) (path text : String) : Except Obstacle Disk := do
  let names ← d.target (← d.start path) (Path.steps path)
  if d.root.hasDirectory names then throw .blocked
  return { d with root := d.root.put names (.file text.toUTF8) }

/-! ## 3. Making directories -/

/-- The disk with a new directory.  Slashes at the end of the path do not matter. -/
def make (d : Disk) (path : String) : Except Obstacle Disk := do
  let names ← d.target (← d.start path) (Path.steps (Path.dropSlashes path))
  if (d.root.get? names).isSome then throw .blocked
  return { d with root := d.root.put names .empty }

/-- Makes the first directory of a lineage, and before it those of the others that are missing.  It
is as well if the directory is there already. -/
def makeFirst (d : Disk) : List String → Bool × Disk
  | [] => (true, d)
  | path :: outer =>
    match d.make path with
    | .ok d => (true, d)
    | .error .blocked => (d.isDirectory path, d)
    | .error .missing =>
      match d.makeFirst outer with
      | (false, d) => (false, d)
      | (true, d) =>
        match d.make path with
        | .ok d => (true, d)
        | .error _ => (d.isDirectory path, d)

/-- **Makes a directory and those it is in,** as far as they are missing.  For an empty path there
is nothing to do. -/
def makeDirectory (d : Disk) (path : String) : Bool × Disk :=
  if path.isEmpty then (true, d) else d.makeFirst (Path.lineage path)

end Disk

end Railroad
