/-
# Points, sizes and insets

The plane a diagram is drawn in: `x` grows to the right and `y` downwards, from the corner at the
top left on.  Lengths are in the unit of the drawing, a pixel.

Three records are enough for a layout.  A node is placed by the `Point` where its box begins and
takes a `Size`; the room that is left free around a label or around the whole page is given by
`Insets`.  A box is never given by two corners, so a width below zero is a number that is below
zero and not a box turned inside out; `isUsable` is what tells such a size from a good one.

The records are bare: they can hold any numbers, also ones that cannot be drawn.  Whether what a
layout computes is usable is checked at the end, for the whole graph at once (`Graph.arrange`), and
what settings may hold is checked when they are read (`Settings.validate`).
-/
import Railroad.Scalar

namespace Railroad

open Scalar

/-- A point of the drawing.  The box of a node lies to the right of its point and below it. -/
structure Point (α : Type) where
  x : α
  y : α
deriving Repr, DecidableEq

/-- A width and a height.  Nothing keeps them from being below zero or infinite. -/
structure Size (α : Type) where
  width : α
  height : α
deriving Repr, DecidableEq

/-- Distances from the four sides of a rectangle, clockwise from the top.  They serve as the
padding around a label and as the margins of the page. -/
structure Insets (α : Type) where
  top : α
  right : α
  bottom : α
  left : α
deriving Repr, DecidableEq

variable {α : Type} [Scalar α]

namespace Point

/-- The point moved by the given offsets, to the right and downwards. -/
def translate (p : Point α) (dx dy : α) : Point α := ⟨p.x + dx, p.y + dy⟩

/-- Both coordinates are finite. -/
def isFinite (p : Point α) : Bool := Scalar.isFinite p.x && Scalar.isFinite p.y

/-- Both coordinates are finite and not below zero, so the point lies on a page that begins at
zero. -/
def isUsable (p : Point α) : Bool := Scalar.isUsable p.x && Scalar.isUsable p.y

end Point

namespace Insets

/-- The same distance on every side. -/
def uniform (value : α) : Insets α := ⟨value, value, value, value⟩

/-- No distance on any side. -/
def zero : Insets α := uniform 0.0

/-- Left and right together, `horizontal_sum`. -/
def horizontal (i : Insets α) : α := i.left + i.right

/-- Top and bottom together, `vertical_sum`. -/
def vertical (i : Insets α) : α := i.top + i.bottom

end Insets

namespace Size

/-- Nothing. -/
def zero : Size α := ⟨0.0, 0.0⟩

/-- Both dimensions made larger by the given amounts. -/
def grow (s : Size α) (width height : α) : Size α := ⟨s.width + width, s.height + height⟩

/-- The smallest size that covers both, the larger of the widths and the larger of the
heights. -/
def cover (s t : Size α) : Size α := ⟨larger s.width t.width, larger s.height t.height⟩

/-- The size with room on all sides, `add_padding`: a box is its label padded so. -/
def pad (s : Size α) (i : Insets α) : Size α := ⟨s.width + i.horizontal, s.height + i.vertical⟩

/-- Both dimensions are zero. -/
def isZero (s : Size α) : Bool := Scalar.isZero s.width && Scalar.isZero s.height

/-- Both dimensions are finite and not below zero, `is_valid`. -/
def isUsable (s : Size α) : Bool := Scalar.isUsable s.width && Scalar.isUsable s.height

end Size

end Railroad
