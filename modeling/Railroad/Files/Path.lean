/-
# Paths

A path is a text of pieces with slashes between them.  An empty piece and `.` stay in the directory
that was reached, and `..` goes up from it; any of them asks for a directory.  A path that begins
with a slash starts at the root.

A path is a text and a way at once.  As a way it is the list of its steps, which a disk follows; as
a text it is joined with names, cut at its points and measured in bytes.  Two paths that lead the
same way may have different texts.
-/

namespace Railroad.Path

/-! ## 1. Steps -/

/-- **A step of a path.** -/
inductive Step where
  | stay
  | up
  | into (name : String)
deriving Repr, DecidableEq

/-- The step that a piece of a path stands for. -/
def step : String → Step
  | "" => .stay
  | "." => .stay
  | ".." => .up
  | name => .into name

/-- The pieces of a path. -/
def pieces (path : String) : List String := (path.toList.splitOn '/').map String.ofList

/-- The steps of a path. -/
def steps (path : String) : List Step := (pieces path).map step

/-- It starts at the root. -/
def isAbsolute (path : String) : Bool := path.startsWith "/"

/-- How many bytes a path may have. -/
def longest : Nat := 4095

/-- How many bytes a name may have. -/
def longestName : Nat := 255

/-- A path can be followed at all: it is not too long and holds no zero. -/
def isUsable (path : String) : Bool := path.utf8ByteSize ≤ longest && !path.toList.contains '\x00'

/-- A path without the slashes at its end. -/
def dropSlashes (path : String) : String :=
  String.ofList (path.toList.reverse.dropWhile (· == '/')).reverse

/-! ## 2. Parts of a path -/

/-- **The path of a name in a directory.**  The name is put behind the directory as it is, with a
slash between them if there is none. -/
def join (directory name : String) : String :=
  if directory.isEmpty || directory.endsWith "/" then directory ++ name
  else directory ++ "/" ++ name

/-- A file name without its extension.  A point at the beginning starts no extension. -/
def dropExtension (name : String) : String :=
  match name.toList.reverse.dropWhile (· != '.') with
  | _ :: stem@(_ :: _) => String.ofList stem.reverse
  | _ => name

/-- **The name of the file a path leads to,** without its extension. -/
def stem? (path : String) : Option String :=
  match (steps path).reverse.dropWhile (· == .stay) with
  | .into name :: _ => some (dropExtension name)
  | _ => none

/-- Pieces from the last one on without those that stay where they are.  The first piece of all
remains. -/
def dropStays : List String → List String
  | piece :: before :: pieces =>
    if step piece == .stay then dropStays (before :: pieces) else piece :: before :: pieces
  | pieces => pieces

/-- The path of pieces from the last one on. -/
def ofReversed : List String → String
  | [""] => "/"
  | pieces => "/".intercalate pieces.reverse

/-- The directories that the last of all pieces stands in, the innermost first; the pieces are given
from the last one on. -/
def enclosing : List String → List String
  | piece :: before :: pieces =>
    let outer := enclosing (before :: pieces)
    if step piece == .stay then outer else ofReversed (dropStays (before :: pieces)) :: outer
  | _ => []

/-- **A path and those of the directories it lies in,** the outermost last.  The directory that a
path starts from is not among them. -/
def lineage (path : String) : List String := path :: enclosing (pieces path).reverse

end Railroad.Path
