/-
# What can go wrong

Between a grammar text and a drawing there are five places to fail: the text may be no grammar, a
production may have no graph, a name may not be defined, the settings may make no drawing, and a
layout may come out with a box that cannot be drawn.  Files and the output have failures of
their own.

Every stage has a type for its own failures, and `Failure` is what they become for those who call
the whole (`Railroad.Diagram`).  Each is kept as what the stage said, not as a text, so that a
report can point at the place in the source or at the name that was looked up; the wording is made
only when it is shown (`Failure.message`).

Settings are a stage with faults inside each other: a fault that was found in settings from a file
is wrapped as such (`SettingsFault.inFile`), and its wording then says so in front.
-/
import Railroad.Build.Compile
import Railroad.Ebnf.Diagnostic
import Railroad.Layout.Page

namespace Railroad

/-- **What is wrong with settings,** or with the file they are in.  `other` is a fault that is
known by its text alone. -/
inductive SettingsFault (α : Type) where
  | invalid (setting : InvalidSetting α)
  | color (color : InvalidColor)
  | missingFile (path : String)
  /-- The file is no configuration. -/
  | unreadable
  /-- The settings of a file are refused. -/
  | inFile (fault : SettingsFault α)
  | other (text : String)

namespace SettingsFault

/-- The wording of a fault in settings.  What exactly is wrong with a file that is no
configuration is worded by whoever read it, and follows the colon. -/
def message : SettingsFault Float32 → String
  | .invalid s => s.message
  | .color c => c.message
  | .missingFile path => "Missing configuration file: " ++ path
  | .unreadable => "Failed to parse TOML configuration: "
  | .inFile fault => "Validation error: " ++ fault.message
  | .other text => text

end SettingsFault

/-- **A failure** of any stage.  That of a text which is no grammar keeps the text, since its
diagnostics point into it.  Each stage has a constructor, so the stage can be told without looking
at words. -/
inductive Failure (α : Type) where
  /-- A file cannot be read or written. -/
  | io (text : String)
  /-- The source is no grammar. -/
  | parse (error : Ebnf.ParseError) (source : String)
  | build (error : Build.BuildError)
  /-- The name is not defined. -/
  | lookup (name : String)
  | geometry (error : GeometryError α)
  | config (fault : SettingsFault α)
  | output (text : String)

namespace Failure

/-- There is nothing to draw one below the other: a stack was asked for of a grammar without
productions. -/
def nothingToStack {α : Type} : Failure α := .output "Render error: No productions to stack"

/-- **The wording of a failure.**  The stage is named in front, except where the text is no
grammar: the diagnostic speaks for itself. -/
def message : Failure Float32 → String
  | .io text => "I/O error: " ++ text
  | .parse error _ => error.text
  | .build error => "Build error: " ++ error.message
  | .lookup symbol => "Symbol '" ++ symbol ++ "' not found"
  | .geometry error => "Geometry error: " ++ error.message
  | .config fault => "Config error: " ++ fault.message
  | .output text => "Export error: " ++ text

end Failure

end Railroad
