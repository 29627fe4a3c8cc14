/-
# A run

A run reads the settings and a grammar and writes drawings of its productions: each into a file of
its own, or all of them into one.  Settings are looked for in the file that is asked for; without
one in the project, then where the user keeps them; and without any the defaults are in force.

A production that cannot be drawn does not keep the others from being drawn: `drawEach` gives its
failure beside the drawings.  Whatever else fails ends the run.  When all are drawn one below the
other that includes a production that cannot be drawn, since there is only one file to write.

All drawings are made before the first is written.  So a run comes in two parts: what is to be
written is computed from the grammar and the settings (`Command.draw`), and then written in order
(`writeAll`).  The first part needs no access to files, and the second looks at nothing but paths
and texts.

Files are reached through `FileAccess`, in any monad.  `Railroad.Main` runs in `IO`;
`Railroad.Proofs.Command.Run` runs on a disk that is kept as a value.
-/
import Railroad.Command.Arguments
import Railroad.Command.FileName
import Railroad.Diagram
import Railroad.Files.Access
import Railroad.Settings.Data

namespace Railroad

/-- **What came of a run** that was not ended by a failure.  A production that could not be drawn is
not a failure of the run, unless all are drawn into one file. -/
structure Outcome where
  /-- The files that were written, in order. -/
  written : List String := []
  /-- The productions that could not be drawn. -/
  failures : List (String × Failure Float32) := []

/-- Everything was drawn. -/
def Outcome.isSuccess (o : Outcome) : Bool := o.failures.isEmpty

/-! ## 1. Settings -/

namespace Settings

/-- The first fault of settings, `validate`, if there is one: measures before colors. -/
def check [Color.Notation] (s : Settings Float32) : Except (SettingsFault Float32) Unit := do
  s.layout.validate.mapError .invalid
  let _ ← s.style.resolve.mapError .color

/-- **Reads settings off the text of a file.**  They must make a drawing. -/
def ofText [Color.Notation] [Data.Notation] (text : String) :
    Except (SettingsFault Float32) (Settings Float32) := do
  match Data.Notation.read? text >>= Settings.ofData? .toml with
  | none => throw .unreadable
  | some settings =>
    settings.check.mapError .inFile
    return settings

end Settings

/-! ## 2. Drawings -/

/-- **A drawing** and the file that it belongs into. -/
structure Drawing where
  path : String
  svg : String

/-- The path of a drawing. -/
def Drawing.pathIn (directory stem : String) : String := Path.join directory (stem ++ ".svg")

namespace Grammar

variable [Shaping Float32] [Color.Notation] [Xml.Notation]

/-- **Draws productions one by one,** each into a file of its own: the drawings, and the productions
that could not be drawn.  A file name is taken for what can be drawn only, so productions that fail
leave no gaps in the numbers. -/
def drawEach (g : Grammar) (settings : Settings Float32) (directory : String) :
    FileNamer → List String → List Drawing × List (String × Failure Float32)
  | _, [] => ([], [])
  | namer, name :: names =>
    match g.svg settings name with
    | .ok svg =>
      let (stem, namer) := namer.next name
      let (drawings, failures) := g.drawEach settings directory namer names
      (⟨Drawing.pathIn directory stem, svg⟩ :: drawings, failures)
    | .error failure =>
      let (drawings, failures) := g.drawEach settings directory namer names
      (drawings, (name, failure) :: failures)

/-- **Draws productions one below the other** into one file, which is named after the input.  With
nothing to draw there is no file. -/
def drawStacked (g : Grammar) (settings : Settings Float32) (directory input : String)
    (names : List String) : Except (Failure Float32) (List Drawing) := do
  if names.isEmpty then return []
  let svg ← g.stackedSvg settings names
  let (stem, _) := FileNamer.next {} ((Path.stem? input).getD "")
  return [⟨Drawing.pathIn directory stem, svg⟩]

/-- **Everything that a command line asks for:** the drawings with their paths, and the productions
that could not be drawn.  The paths are known before anything is written. -/
def draw (g : Grammar) (settings : Settings Float32) (args : Arguments) :
    Except (Failure Float32) (List Drawing × List (String × Failure Float32)) := do
  let names := if args.symbols.isEmpty then g.names else args.symbols
  if args.stacked then
    return (← g.drawStacked settings args.output args.input names, [])
  else
    return g.drawEach settings args.output {} names

end Grammar

/-! ## 3. Files -/

namespace Command

variable {m : Type → Type} [Monad m] [FileAccess m]
variable [Shaping Float32] [Color.Notation] [Xml.Notation] [Data.Notation]

/-- The answer of an access, or a failure. -/
def access {β : Type} (answer : m (Except String β)) : ExceptT (Failure Float32) m β := do
  match ← (answer : m (Except String β)) with
  | .ok b => return b
  | .error reason => throw (.io reason)

/-- Where settings are kept in a project. -/
def localConfig : String := "trestle/config.toml"

/-- The settings of a file, which must be there. -/
def readSettings (path : String) : ExceptT (Failure Float32) m (Settings Float32) := do
  if !(← (FileAccess.has path : m Bool)) then throw (.config (.missingFile path))
  match Settings.ofText (← access (FileAccess.read path)) with
  | .ok settings => return settings
  | .error fault => throw (.config fault)

/-- **Looks for the settings,** `load_config`: in the file that is asked for, in the project, and in
the file `user`.  The first of these files that is there counts, and it is not completed by the
others; a file that is asked for must be there. -/
def loadSettings (asked user : Option String) : ExceptT (Failure Float32) m (Settings Float32) := do
  if let some path := asked then return ← readSettings path
  if ← (FileAccess.has localConfig : m Bool) then return ← readSettings localConfig
  if let some path := user then
    if ← (FileAccess.has path : m Bool) then return ← readSettings path
  return .default

/-- Writes drawings, up to the first that cannot be written. -/
def writeAll : List Drawing → ExceptT (Failure Float32) m Unit
  | [] => return
  | drawing :: drawings => do
    access (FileAccess.write drawing.path drawing.svg)
    writeAll drawings

/-- **A run,** `run`.  `user` is the file where the user keeps settings.  The directory for the
drawings is made before any of them, if there is none.  Writing begins when all drawings are made,
so a failure before that leaves no file behind. -/
def run (user : Option String) (args : Arguments) : ExceptT (Failure Float32) m Outcome := do
  let settings ← loadSettings args.config user
  let source ← access (FileAccess.read args.input)
  let g ← (Grammar.ofSource settings.collapsing source : Except (Failure Float32) Grammar)
  access (FileAccess.makeDirectory args.output)
  let (drawings, failures) ← g.draw settings args
  writeAll drawings
  return { written := drawings.map Drawing.path, failures }

end Command

end Railroad
