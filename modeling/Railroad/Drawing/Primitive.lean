/-
# What a drawing is made of

A diagram is drawn with six kinds of marks: lines, quarter arcs, boxes, frames, arrow heads and
labels.  Each kind belongs to a layer, and higher layers cover lower ones: labels lie on arrow
heads, these on boxes, boxes on the track, and the track on the frames that show where nodes are.

Marks are all that leaves the walk through a graph.  Where a mark came from is not in it; what is
said of drawings, such as which labels are read one after the other or which marks lie on the page,
is said of lists of marks.

Directions and dashes are kept here too, since marks have them.  A direction is that of the track
at a place: the way back of a loop is walked in the other one, and only its arrow heads show it.
-/
import Railroad.Geometry
import Railroad.Style

namespace Railroad

open Scalar

variable {α : Type} [Scalar α]

/-- Which way a track is run through, to the right or to the left. -/
inductive Direction where
  | forward | reverse
deriving Repr, DecidableEq

namespace Direction

/-- The other direction. -/
def flip : Direction → Direction
  | .forward => .reverse
  | .reverse => .forward

/-- One to the right, minus one to the left. -/
def sign : Direction → α
  | .forward => 1.0
  | .reverse => -1.0

@[simp] theorem flip_flip (d : Direction) : d.flip.flip = d := by cases d <;> rfl

end Direction

/-- How a line is broken up. -/
inductive Dashes where
  | solid | dashed | dotted
deriving Repr, DecidableEq

namespace Dashes

/-- The lengths of strokes and gaps, if there are any. -/
def pattern? : Dashes → Option String
  | .solid => none
  | .dashed => some "5,5"
  | .dotted => some "2,3"

/-- The name of a line style. -/
def text : Dashes → String
  | .solid => "solid"
  | .dashed => "dashed"
  | .dotted => "dotted"

/-- Reads a line style. -/
def ofText? : String → Option Dashes
  | "solid" => some .solid
  | "dashed" => some .dashed
  | "dotted" => some .dotted
  | _ => none

/-- What is said of a text that names no line style. -/
def unknownMessage (s : String) : String :=
  "invalid stroke style `" ++ s ++ "`, valid values: solid, dashed, dotted"

end Dashes

/-- **A stroke:** the color, width and style of a line. -/
structure Stroke (α : Type) where
  color : Color
  width : α
  dashes : Dashes

/-- **The layers of a drawing,** the lowest first.  Nothing is drawn on the background but the
backdrop of a document.  The order of the constructors is the order of drawing. -/
inductive Layer where
  | background | frame | track | shape | arrow | text
deriving Repr, DecidableEq

namespace Layer

/-- All layers, the lowest first. -/
def all : List Layer := [.background, .frame, .track, .shape, .arrow, .text]

/-- The place of a layer among all, from the lowest up. -/
def rank : Layer → Nat
  | .background => 0
  | .frame => 1
  | .track => 2
  | .shape => 3
  | .arrow => 4
  | .text => 5

/-- The name of a layer. -/
def name : Layer → String
  | .background => "background"
  | .frame => "frame"
  | .track => "track"
  | .shape => "shape"
  | .arrow => "arrow"
  | .text => "text"

/-- The layer of a name. -/
def ofName? (s : String) : Option Layer := all.find? (·.name == s)

end Layer

/-- **A mark.**  Colors and widths are in the mark itself, so it needs nothing around it.
Coordinates are those of the page, with the origin at its upper left corner and heights growing
downwards. -/
inductive Primitive (α : Type) where
  | line (start stop : Point α) (stroke : Stroke α)
  /-- A quarter of the circle in a square, clockwise from an angle in degrees; 0 is on the right. -/
  | arc (origin : Point α) (diameter : α) (angle : UInt16) (stroke : Stroke α)
  | rect (origin : Point α) (size : Size α) (radius : α) (stroke : Stroke α) (fill : Option Color)
  /-- The outline of a node's box. -/
  | frame (origin : Point α) (size : Size α) (stroke : Stroke α)
  | arrow (tip : Point α) (direction : Direction) (size : α) (color : Color)
  | text (content : String) (center : Point α) (font : Font) (color : Color)

namespace Primitive

/-- **The mark moved** by the given offsets, `translate`.  Nothing else about it changes. -/
def translate (p : Primitive α) (dx dy : α) : Primitive α :=
  match p with
  | .line start stop stroke => .line (start.translate dx dy) (stop.translate dx dy) stroke
  | .arc origin diameter angle stroke => .arc (origin.translate dx dy) diameter angle stroke
  | .rect origin size radius stroke fill => .rect (origin.translate dx dy) size radius stroke fill
  | .frame origin size stroke => .frame (origin.translate dx dy) size stroke
  | .arrow tip direction size color => .arrow (tip.translate dx dy) direction size color
  | .text content center font color => .text content (center.translate dx dy) font color

/-- The layer a mark belongs to. -/
def layer : Primitive α → Layer
  | .line .. => .track
  | .arc .. => .track
  | .rect .. => .shape
  | .frame .. => .frame
  | .arrow .. => .arrow
  | .text .. => .text

@[simp] theorem layer_translate (p : Primitive α) (dx dy : α) :
    (p.translate dx dy).layer = p.layer := by cases p <;> rfl

end Primitive

end Railroad
