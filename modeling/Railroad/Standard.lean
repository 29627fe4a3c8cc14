/-
# What the program is run with

Some of what a drawing takes is decided outside: how colors, settings files and documents are
written, and what shaping makes of a label.  Definitions and results take these as parameters.  Here
are the ones that the program is run with:

* colors are read and written as in style sheets (`Color.read`, `Color.text`);
* documents are written as XML with every element on a line of its own (`Xml.render`);
* settings files are in TOML (`Toml.read?`);
* no fonts are asked for, so that labels are measured by the average advance.

Each of them is a definition of its own, in a module of its own, and can be exchanged without
touching anything else: the classes that they are instances of ask for little more than functions of
the right type (`Color.Notation`, `Xml.Notation`, `Data.Notation`, `Shaping`).

Nothing but the program itself and the runs on fixed inputs depends on this module.
-/
import Railroad.Color.Reader
import Railroad.Color.Notation
import Railroad.Drawing.Xml
import Railroad.Metrics
import Railroad.Toml.Reader

namespace Railroad

/-- Colors as in style sheets.  That the two names are read which a chart falls back on is found
out by reading them. -/
instance Standard.colors : Color.Notation where
  read s := (Color.read s).mapError Color.Malformed.message
  text := Color.text
  reads_black := by decide +kernel
  reads_white := by decide +kernel

/-- Documents as XML. -/
instance Standard.documents : Xml.Notation := ⟨Xml.render⟩

/-- Settings in TOML. -/
instance Standard.files : Data.Notation := ⟨Toml.read?⟩

/-- Labels without fonts, so that those of the `font` measure have the width of all their
characters at the average advance. -/
instance Standard.labels {α : Type} : Shaping α := Shaping.fontless

end Railroad
