/-
# The size of a label

A layout needs two numbers of a text: the size of a label, and the height of a line in the font of
the chart.  Both are in pixels.  A point is a third more than a pixel, and a line is somewhat higher
than its font.

There are two ways to measure a label, and the settings say which is used:

* `fixed` lets every character advance by the same part of the font size.  It depends on nothing
  outside (`Font.labelSize`, which is `text_size` of the fixed metrics), so it gives the same size
  everywhere.
* `font` has the label shaped with the fonts of the machine.  Shaping is not done here: it finds the
  fonts, picks glyphs and lines them up, and what it hands back is a list of runs of glyphs.
  `Shaping` is that hand-over, an arbitrary function from fonts and labels to runs.  What is made of
  the runs is `Font.shapedSize`, which is `calculate_text_size`: the label is as wide as the run that
  reaches farthest, and as high as all its runs together.  A label for which there are no runs is
  measured by the average advance, as if it were one line.

All that is proved of layouts and drawings holds for every shaping.  The one that finds no runs at
all, which is what a machine without fonts has, is `Shaping.fontless`.
-/
import Railroad.Geometry
import Railroad.Style
import Railroad.Text.Lines

namespace Railroad

open Scalar

variable {α : Type} [Scalar α]

/-- **The shaping of labels.**  A label set in a font becomes runs of glyphs, top to bottom.  Of a
run it matters only where its last glyph begins and how wide that glyph is; a run may also be
without glyphs, as that of an empty line is.  The runs depend on nothing but the font and the
label: the fonts of the machine are loaded once and do not change after that. -/
class Shaping (α : Type) where
  /-- The last glyph of every run: its beginning and its width. -/
  runs : Font → String → List (Option (α × α))

/-- No label has any runs, as on a machine without fonts. -/
@[reducible] def Shaping.fontless : Shaping α := ⟨fun _ _ => []⟩

namespace Font

/-- The size of a font in pixels, `font_size_px`. -/
def pixels (font : Font) : α := ofNat font.size.toNat * 1.33

/-- The height of a line, `line_height_px`. -/
def lineHeight (font : Font) : α := font.pixels * 1.15

/-- The part of the font size that an average character advances by. -/
def averageAdvance : α := 0.55

/-- **The size of a label** whose characters all advance by the part `advance` of the font size.
An empty label takes no room; any other is as wide as its longest line and at least one line
high. -/
def labelSize (font : Font) (advance : α) (label : String) : Size α :=
  if label.isEmpty then Size.zero else
  let lines := Text.lines label
  let widest := (lines.map List.length).foldl max 0
  ⟨ofNat widest * font.pixels * advance, ofNat (max lines.length 1) * font.lineHeight⟩

/-- **The size of a label that was shaped,** `calculate_text_size`.  Every run takes a line, also
one without glyphs, and the end of its last glyph is how far a run reaches.  Where shaping yields no
runs, all characters of the label advance by the average, line ends among them, on one line. -/
def shapedSize [Shaping α] (font : Font) (label : String) : Size α :=
  if label.isEmpty then Size.zero else
  match Shaping.runs font label with
  | [] => ⟨ofNat label.length * font.pixels * averageAdvance, font.lineHeight⟩
  | first :: rest =>
    let runs : List (Option (α × α)) := first :: rest
    ⟨largest ((runs.filterMap id).map fun glyph => glyph.1 + glyph.2),
      total (runs.map fun _ => font.lineHeight)⟩

end Font

/-- **How labels are measured:** with the fonts of the machine, or by one advance for all
characters.  It is a setting; what shaping yields is not. -/
inductive TextMetrics where
  | font | fixed
deriving Repr, DecidableEq

/-- The size of a label in a font, `text_size`. -/
def TextMetrics.labelSize [Shaping α] : TextMetrics → Font → String → Size α
  | .font, f, label => f.shapedSize label
  | .fixed, f, label => f.labelSize Font.averageAdvance label

/-- The name of a way to measure. -/
def TextMetrics.text : TextMetrics → String
  | .font => "font"
  | .fixed => "fixed"

end Railroad
