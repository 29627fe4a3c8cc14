/-
# Settings

Everything that can be set for a drawing: how productions are compiled, how much room the parts
of a diagram take, and what they look like.  Each setting has a default, and the defaults make a
drawing.

The measures of a layout go by the names of the track: the *symbol* gaps pad a label inside its box,
the *component* gaps separate neighbouring constructs.  Where a row may be broken is a setting as
well, the page width; without one there is a single row.

Settings can be given that make no drawing.  Two checks find the first of them:

* `LayoutSettings.validate` goes through the measures in a fixed order and names the first one that
  is infinite, no number or below zero, then a font without a size, then a page without a width.
* `StyleSettings.resolve` reads the colors, which are texts until then, in a fixed order as well.

Neither is run when settings are put together, so a record of settings may hold anything; the
drawing runs both before it starts.  What `validate` admits is admitted one by one: nothing keeps
two margins that are finite from adding up to an infinite page, and that is found only by the check
of the layout itself, where it is found at all.
-/
import Railroad.Color.Notation
import Railroad.Metrics
import Railroad.Number.Text

namespace Railroad

open Scalar

variable {α : Type} [Scalar α]

/-! ## 1. The room a diagram takes -/

/-- **The measures of a layout.**  `symbolGap` surrounds a label in its box, `componentGap` lies
between boxes, and `pageWidth` is where rows are broken, if they are.  `arcSize` is the radius of
the turns of a track, `arrowSize` the room of an arrow head on it.  None of them is checked when it
is set. -/
structure LayoutSettings (α : Type) where
  font : Font
  symbolGap : Size α
  componentGap : Size α
  arcSize : α
  arrowSize : α
  pageWidth : Option α
  margin : Insets α
  textMetrics : TextMetrics

/-- The measures that are in force unless others are set.  Rows are not broken then, and labels
are measured with the fonts of the machine. -/
def LayoutSettings.default : LayoutSettings α where
  font := {}
  symbolGap := ⟨8.0, 4.0⟩
  componentGap := ⟨32.0, 10.0⟩
  arcSize := 12.0
  arrowSize := 5.0
  pageWidth := none
  margin := ⟨10.0, 10.0, 10.0, 24.0⟩
  textMetrics := .font

/-- **A setting that makes no drawing,** with its value.  It is called as in a settings file, so
the sides of the margin have a point in their names. -/
inductive InvalidSetting (α : Type) where
  | measure (name : String) (value : α)
  | fontSize
deriving Repr, DecidableEq

/-- The wording of an invalid setting. -/
def InvalidSetting.message : InvalidSetting Float32 → String
  | .measure name value => "Invalid layout setting `" ++ name ++ "`: " ++ Number.plain value
  | .fontSize => "Invalid layout setting `font.size`: 0"

namespace LayoutSettings

/-- The settings that must be finite and not below zero, by name and in the order in which they
are looked at. -/
def measures (s : LayoutSettings α) : List (String × α) :=
  [("symbol_gap_width", s.symbolGap.width), ("symbol_gap_height", s.symbolGap.height),
    ("component_gap_width", s.componentGap.width), ("component_gap_height", s.componentGap.height),
    ("arc_size", s.arcSize), ("arrow_size", s.arrowSize), ("margin.top", s.margin.top),
    ("margin.right", s.margin.right), ("margin.bottom", s.margin.bottom),
    ("margin.left", s.margin.left)]

/-- **Checks that a layout is possible,** `validate`: no measure is negative or infinite, the font
has a size, and the page a width.  The first setting that is not so is reported, and the others are
not looked at.  A zero of either sign passes as a measure, but is no width of a page.

The order is that of `measures`, and then the font and the page. -/
def validate (s : LayoutSettings α) : Except (InvalidSetting α) Unit :=
  match s.measures.find? fun (_, value) => !isFinite value || lt value 0.0 with
  | some (name, value) => .error (.measure name value)
  | none =>
    if s.font.size = 0 then .error .fontSize
    else match s.pageWidth with
    | some width =>
      if !isFinite width || le width 0.0 then .error (.measure "page_width" width) else .ok ()
    | none => .ok ()

end LayoutSettings

/-! ## 2. What a diagram looks like -/

/-- **The look of a chart,** with colors as they were written.  `showBorders` draws a frame around
the room of every node, to look at layouts; nothing else depends on it. -/
structure StyleSettings (α : Type) where
  line : Option String
  text : Option String
  fill : Option String
  background : Option String
  lineWidth : α
  showBorders : Bool

/-- The look that is in force unless another is set. -/
def StyleSettings.default : StyleSettings α where
  line := none
  text := none
  fill := none
  background := none
  lineWidth := 1.0
  showBorders := false

/-- A color setting that is no color: what the setting is called in messages, and what is wrong
with its text. -/
structure InvalidColor where
  setting : String
  color : Color.Unreadable
deriving Repr, DecidableEq

/-- The wording of an invalid color. -/
def InvalidColor.message (e : InvalidColor) : String :=
  "Invalid " ++ e.setting ++ " in config: " ++ e.color.message

/-- The look of a chart with colors that are colors.  It is what a drawing is made with, and what
a node falls back on whose own style leaves something open. -/
structure ChartStyle (α : Type) where
  line : Color
  text : Color
  fill : Color
  background : Color
  lineWidth : α
  showBorders : Bool

namespace StyleSettings

section Colors

variable [Color.Notation]

/-- Reads the color of a setting, if it has one, `parse_color`. -/
def readColor (setting : String) : Option String → Except InvalidColor (Option Color)
  | none => .ok none
  | some text => (Color.ofText text).map some |>.mapError (InvalidColor.mk setting)

/-- The color of tracks, outlines and arrows. -/
def lineColor (s : StyleSettings α) : Except InvalidColor (Option Color) :=
  readColor "line color" s.line

/-- The color of labels. -/
def textColor (s : StyleSettings α) : Except InvalidColor (Option Color) :=
  readColor "text color" s.text

/-- The color inside boxes. -/
def fillColor (s : StyleSettings α) : Except InvalidColor (Option Color) :=
  readColor "fill color" s.fill

/-- The color behind everything. -/
def backgroundColor (s : StyleSettings α) : Except InvalidColor (Option Color) :=
  readColor "background color" s.background

/-- **Reads the colors of a chart.**  It is drawn in black on white unless told otherwise.  Of
several settings that are no color the first is reported: line, text, fill, background.  Nothing is
drawn with a color that was not asked for, so a fault in one color is a failure of the whole
drawing. -/
def resolve (s : StyleSettings α) : Except InvalidColor (ChartStyle α) := do
  let line ← s.lineColor
  let text ← s.textColor
  let fill ← s.fillColor
  let background ← s.backgroundColor
  return {
    line := line.getD Color.black
    text := text.getD Color.black
    fill := fill.getD Color.white
    background := background.getD Color.white
    lineWidth := s.lineWidth
    showBorders := s.showBorders }

end Colors

end StyleSettings

/-! ## 3. All settings -/

/-- **All settings.**  `collapsing` makes reruns of repetitions next to their own body
(`collapse_repetitions`); it is the only setting that decides which graph a production has. -/
structure Settings (α : Type) where
  collapsing : Bool
  layout : LayoutSettings α
  style : StyleSettings α

/-- The settings that are in force unless others are given. -/
def Settings.default : Settings α := ⟨true, .default, .default⟩

end Railroad
