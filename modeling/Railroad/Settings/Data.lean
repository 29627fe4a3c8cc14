/-
# Settings as data

`Settings.ofData?` reads settings off a tree of tables, texts and numbers.  A missing entry keeps
its default, an entry that no setting asks for is passed over, and an entry of the wrong type
makes the whole unreadable.  A whole number may stand for any number.

A margin is the exception to the defaults: the sides that are missing in a margin that is given are
zero, not those of the default margin, since a margin on its own is no more than four numbers.

A table may also be given as a list, which is the entries of the table in the order of the
settings, as far as the list goes; what else is allowed depends on the dialect.  The names that
each reader passes to `Data.entries?` are in that order for this reason.

Reading says only whether the data has the right shape.  The values may still make no drawing, which
is for `LayoutSettings.validate` and `StyleSettings.resolve` to find; a color is any text here.
-/
import Railroad.Data
import Railroad.Settings.Basic

namespace Railroad

open Data

/-- Reads a font.  A font that leaves out its size has that of the default font, not zero. -/
def Font.ofData? (dialect : Dialect) : Data.Reader Font := fun data => do
  let entries ← data.entries? dialect ["family", "size"]
  return {
    family := ← entry? entries "family" text? ({} : Font).family
    size := ← entry? entries "size" size? ({} : Font).size }

/-- Reads the four sides of a margin, where those that are missing are zero. -/
def Insets.ofData? (dialect : Dialect) : Data.Reader (Insets Float32) := fun data => do
  let entries ← data.entries? dialect ["top", "right", "bottom", "left"]
  return {
    top := ← entry? entries "top" number? 0.0
    right := ← entry? entries "right" number? 0.0
    bottom := ← entry? entries "bottom" number? 0.0
    left := ← entry? entries "left" number? 0.0 }

/-- Reads a way to measure text, by its name in small letters. -/
def TextMetrics.ofData? (dialect : Dialect) : Data.Reader TextMetrics := fun data => do
  match ← data.choice? dialect with
  | "font" => some .font
  | "fixed" => some .fixed
  | _ => none

/-- Reads the measures of a layout.  The gaps are two numbers each in a file and are paired
here. -/
def LayoutSettings.ofData? (dialect : Dialect) : Data.Reader (LayoutSettings Float32) := fun data => do
  let entries ← data.entries? dialect ["font", "symbol_gap_width", "symbol_gap_height",
    "component_gap_width", "component_gap_height", "arc_size", "arrow_size", "page_width", "margin",
    "text_metrics"]
  let usual : LayoutSettings Float32 := .default
  return {
    font := ← entry? entries "font" (Font.ofData? dialect) usual.font
    symbolGap :=
      ⟨← entry? entries "symbol_gap_width" number? usual.symbolGap.width,
        ← entry? entries "symbol_gap_height" number? usual.symbolGap.height⟩
    componentGap :=
      ⟨← entry? entries "component_gap_width" number? usual.componentGap.width,
        ← entry? entries "component_gap_height" number? usual.componentGap.height⟩
    arcSize := ← entry? entries "arc_size" number? usual.arcSize
    arrowSize := ← entry? entries "arrow_size" number? usual.arrowSize
    pageWidth := ← entry? entries "page_width" (optional? number?) usual.pageWidth
    margin := ← entry? entries "margin" (Insets.ofData? dialect) usual.margin
    textMetrics := ← entry? entries "text_metrics" (TextMetrics.ofData? dialect) usual.textMetrics }

/-- Reads the look of a chart, with its colors as texts. -/
def StyleSettings.ofData? (dialect : Dialect) : Data.Reader (StyleSettings Float32) := fun data => do
  let entries ← data.entries? dialect
    ["line_color", "text_color", "fill_color", "background_color", "line_width", "show_borders"]
  let usual : StyleSettings Float32 := .default
  return {
    line := ← entry? entries "line_color" (optional? text?) usual.line
    text := ← entry? entries "text_color" (optional? text?) usual.text
    fill := ← entry? entries "fill_color" (optional? text?) usual.fill
    background := ← entry? entries "background_color" (optional? text?) usual.background
    lineWidth := ← entry? entries "line_width" number? usual.lineWidth
    showBorders := ← entry? entries "show_borders" bool? usual.showBorders }

/-- Reads whether repetitions are collapsed. -/
def collapsingOfData? (dialect : Dialect) : Data.Reader Bool := fun data => do
  let entries ← data.entries? dialect ["collapse_repetitions"]
  entry? entries "collapse_repetitions" bool? true

/-- **Reads all settings.**  Each of the three tables may be missing as a whole, and data without
any of them is the default settings.  A table may also leave out any of its entries. -/
def Settings.ofData? (dialect : Dialect) : Data.Reader (Settings Float32) := fun data => do
  let entries ← data.entries? dialect ["build", "layout", "style"]
  let usual : Settings Float32 := .default
  return {
    collapsing := ← entry? entries "build" (collapsingOfData? dialect) usual.collapsing
    layout := ← entry? entries "layout" (LayoutSettings.ofData? dialect) usual.layout
    style := ← entry? entries "style" (StyleSettings.ofData? dialect) usual.style }

end Railroad
