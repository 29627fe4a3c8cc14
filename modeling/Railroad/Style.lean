/-
# Fonts and node styles

A leaf of an expression may ask for its own line color, label color or font.  The wish travels with
the leaf, through the graph and the layout, down to the drawing, and nothing on the way looks at it
but two places: a layout measures the label in the font that is asked for, and the drawing colors
box, track and text.  What a node leaves open is taken from the style of the chart there, so a graph
can be drawn in many styles without being built again.

A grammar text cannot ask for a style.  Styles are set by those who build expressions themselves, so
the reader of the notation gives every leaf the empty one.
-/
import Railroad.Color.Basic

namespace Railroad

/-- A font: the name of its family and its size in points.  The size is a whole number of 16
bits, so a label can be large but never infinite or below zero. -/
structure Font where
  family : String := "sans-serif"
  size : UInt16 := 12
deriving Repr, DecidableEq

/-- **What one node overrides.**  `line` is the color of its outline and of the track that follows
it, `label` the color of its text.  What it leaves open is taken from the brush around the node. -/
structure NodeStyle where
  line : Option Color := none
  label : Option Color := none
  font : Option Font := none

namespace NodeStyle

protected def beq (a b : NodeStyle) : Bool :=
  a.line == b.line && a.label == b.label && a.font == b.font

instance : BEq NodeStyle := ⟨NodeStyle.beq⟩

/-- Nothing is overridden, and the node is drawn in the style of the chart alone. -/
def isEmpty (s : NodeStyle) : Bool := s.line.isNone && s.label.isNone && s.font.isNone

end NodeStyle

end Railroad
