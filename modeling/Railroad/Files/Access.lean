/-
# Access to files

The few things that a run does with files.  They can be done to a disk that is kept as a value, and
then a run is a function from one disk to the next.

What cannot be done is answered with a reason, which is a text that a failure is worded with;
nothing depends on what it says.  There is no way to look into a directory or to take anything away:
a run only reads files by their paths, makes directories and writes files.
-/
import Railroad.Files.Disk

namespace Railroad

/-- **Access to files** by their paths.  What cannot be done is answered with the reason.  The
program is written over this class and is run on a machine; what is proved of it is proved for a
tree of files (`Disk`). -/
class FileAccess (m : Type → Type) where
  /-- Whether a path leads to anything. -/
  has : String → m Bool
  /-- The text of a file. -/
  read : String → m (Except String String)
  /-- Makes a directory and those it is in, as far as they are missing. -/
  makeDirectory : String → m (Except String Unit)
  /-- Puts a text into a file, which may be a new one. -/
  write : String → String → m (Except String Unit)

/-- Access to a disk, whose reasons are plain words. -/
instance : FileAccess (StateM Disk) where
  has path := return ((← get).at? path).isSome
  read path := do
    match (← get).read? path with
    | some text => return .ok text
    | none => return .error ("cannot read " ++ path)
  makeDirectory path := do
    let (made, d) := (← get).makeDirectory path
    set d
    return if made then .ok () else .error ("cannot make the directory " ++ path)
  write path text := do
    match (← get).write path text with
    | .ok d => set d; return .ok ()
    | .error _ => return .error ("cannot write " ++ path)

end Railroad
