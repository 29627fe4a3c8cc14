/-
# Trees of files

A tree of files is a file or a directory of further trees under different names.

Trees are looked into and changed along lists of names, from the outside in.  Entries are kept in
the order in which they were made; that the names of a directory differ is kept by `putEntry`, the
only way to add one.
-/
import Railroad.Files.Path

namespace Railroad

/-- **A file or a directory.**  A file holds bytes, which need not be a text. -/
inductive FileTree where
  | file (content : ByteArray)
  | directory (entries : List (String × FileTree))
deriving Inhabited

namespace FileTree

/-- A directory with nothing in it. -/
def empty : FileTree := .directory []

/-- It is a directory. -/
def isDirectory : FileTree → Bool
  | .file _ => false
  | .directory _ => true

/-- What stands at the end of some names. -/
def get? : FileTree → List String → Option FileTree
  | t, [] => some t
  | .file _, _ :: _ => none
  | .directory entries, name :: names => do (← entries.lookup name).get? names

/-- Directory entries with one of them replaced, or added at the end. -/
def putEntry (name : String) (t : FileTree) : List (String × FileTree) → List (String × FileTree)
  | [] => [(name, t)]
  | (other, old) :: entries =>
    if other == name then (name, t) :: entries else (other, old) :: putEntry name t entries

/-- **The tree with something else at the end of some names.**  Directories that are missing on the
way are made; a file on the way leaves the tree as it is. -/
def put : FileTree → List String → FileTree → FileTree
  | _, [], new => new
  | .file content, _ :: _, _ => .file content
  | .directory entries, name :: names, new =>
    .directory (putEntry name (((entries.lookup name).getD empty).put names new) entries)

/-- It is a directory that stands at the end of some names. -/
def hasDirectory (t : FileTree) (names : List String) : Bool :=
  match t.get? names with
  | some (.directory _) => true
  | _ => false

mutual

/-- **The files of a tree** with their paths, the entries of a directory in the order of their
names. -/
def files (path : String) : FileTree → List (String × ByteArray)
  | .file content => [(path, content)]
  | .directory entries =>
    ((entryFiles path entries).mergeSort fun a b => !decide (b.1 < a.1)).flatMap Prod.snd

/-- The files below each entry of a directory. -/
def entryFiles (path : String) : List (String × FileTree) → List (String × List (String × ByteArray))
  | [] => []
  | (name, t) :: entries => (name, t.files (Path.join path name)) :: entryFiles path entries

end

end FileTree

end Railroad
