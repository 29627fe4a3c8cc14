/-
# Boxes and rows

Each node of a laid-out graph has a box: its size, and an `ascent`, the distance from the top of the
box down to the track the node sits on.  All nodes of a row share one track, which lies as far
below the top of the row as the largest ascent in it.  So a row is as high as its largest ascent
and its largest descent together, and as wide as its nodes and the connectors between them.

What is common to the layout and the drawing of a graph is gathered here: boxes, cells (a node
with its box) and the measuring of a row.

Two kinds of nodes are measured by something else than their own size.  The head of an alternation
has the size of its own branch in `size` and that of the whole in `group`, and it is the whole that
takes room in a row (`Cell.extent`).  A wrap takes none; a row ends at one that has a height, and
runs through one that has not.  Which wraps have a height is decided when rows are set
(`Track.frozenFrom`), and until then none has.

A box is filled in three steps: sizes first, then what a page needs to know (`onPage`, the heights
of wraps), and the heights on the page last.
-/
import Railroad.Geometry
import Railroad.Graph.Track
import Railroad.Settings.Basic

namespace Railroad

open Scalar

variable {α : Type} [Scalar α]

/-- **The box of a node.**  `group` is the size of a whole alternation, and of the body of a
rerun; `between` is the size of what lies between two runs of that body.  `top`, `line` and `bottom`
are heights on the page, and `onPage` marks the nodes of the top level. -/
structure Box (α : Type) where
  size : Size α
  group : Size α
  between : Size α
  ascent : α
  top : α
  line : α
  bottom : α
  onPage : Bool
deriving DecidableEq

namespace Box

/-- A box that nothing is known of.  This is what `reset` leaves. -/
def zero : Box α := ⟨Size.zero, Size.zero, Size.zero, 0.0, 0.0, 0.0, 0.0, false⟩

/-- A box of a size, with the track at a distance from its top, and nothing else known. -/
def ofSize (size : Size α) (ascent : α) : Box α := { Box.zero with size, ascent }

/-- It has a height.  A place where a row may end breaks the row if it has one. -/
def hasHeight (b : Box α) : Bool := lt 0.0 b.size.height

/-- The box with the size and the ascent of another one; all else stays. -/
def resize (b other : Box α) : Box α := { b with size := other.size, ascent := other.ascent }

/-- The box of a rerun with the sizes and the ascent of another one.  What is `between` two runs
keeps its size if there is nothing. -/
def resizeRerun (b other : Box α) (between : Bool) : Box α :=
  { b.resize other with
    group := other.group, between := if between then other.between else b.between }

/-- The box between two heights on the page. -/
def place (b : Box α) (top line bottom : α) : Box α := { b with top, line, bottom }

end Box

/-- **A node with its box.**  The node itself is not changed by a layout. -/
structure Cell (α : Type) extends Spot where
  box : Box α

namespace Cell

/-- The room the node takes, `extent`: for the head of an alternation that of the whole. -/
def extent (c : Cell α) : Size α :=
  match c.node.kind with
  | .alternative => c.box.group
  | _ => c.box.size

/-- How far the node reaches below its track. -/
def descent (c : Cell α) : α := c.extent.height - c.box.ascent

/-- It is a place where a row ends, `breaks_row`: a wrap with a height. -/
def breaks (c : Cell α) : Bool := c.node.kind == .wrap && c.box.hasHeight

/-- The cell with a changed box. -/
def mapBox (c : Cell α) (f : Box α → Box α) : Cell α := { c with box := f c.box }

end Cell

/-- **The extent of a row:** its width, and how far it reaches above and below its track. -/
structure RowExtent (α : Type) where
  width : α
  ascent : α
  descent : α
deriving DecidableEq

namespace RowExtent

/-- A row without nodes. -/
def empty : RowExtent α := ⟨0.0, 0.0, 0.0⟩

/-- The row with one more node in it, `include`: it is wider by `advance`, and reaches as far up and
down as its nodes do. -/
def extend (r : RowExtent α) (advance ascent descent : α) : RowExtent α :=
  ⟨r.width + advance, larger r.ascent ascent, larger r.descent descent⟩

/-- The height of a row. -/
def height (r : RowExtent α) : α := r.ascent + r.descent

/-- Width and height of a row. -/
def size (r : RowExtent α) : Size α := ⟨r.width, r.height⟩

/-- The row with one more cell in it, which moves on by its width and by `connector`. -/
def add (r : RowExtent α) (connector : α) (c : Cell α) : RowExtent α :=
  r.extend (c.extent.width + connector) c.box.ascent c.descent

end RowExtent

namespace Track

/-- The connector behind a symbol that `rest` follows, `advance`: half a gap where a symbol comes
next, or nothing.  Nodes that are no symbols have none. -/
def connector (gap : α) (rest : Track (Cell α)) : α :=
  if rest.connects Cell.breaks then gap / 2.0 else 0.0

/-- Goes on measuring a row that reaches up to `row`.  It stops in front of a wrap that breaks the
row. -/
def measureFrom (gap : α) (row : RowExtent α) : Track (Cell α) → RowExtent α
  | .stop => row
  | .wrap c rest => if c.box.hasHeight then row else rest.measureFrom gap row
  | .symbol c rest => rest.measureFrom gap (row.add (rest.connector gap) c)
  | .epsilon c rest => rest.measureFrom gap (row.add 0.0 c)
  | .optional c _ rest => rest.measureFrom gap (row.add 0.0 c)
  | .iteration c _ rest => rest.measureFrom gap (row.add 0.0 c)
  | .rerun c _ _ rest => rest.measureFrom gap (row.add 0.0 c)
  | .choice branches rest => rest.measureFrom gap (row.add 0.0 branches.head)

/-- **The extent of the row that a level begins with,** `measure_row`, up to the place where it
ends, if it ends before the level does; `gap` is the width of a component gap. -/
def measure (gap : α) (t : Track (Cell α)) : RowExtent α := t.measureFrom gap RowExtent.empty

/-- The rows of a level, the first of them reaching up to `row` already. -/
def rowsFrom (gap : α) (row : RowExtent α) : Track (Cell α) → List (RowExtent α)
  | .stop => [row]
  | .wrap c rest =>
    if c.box.hasHeight then row :: rest.rowsFrom gap RowExtent.empty else rest.rowsFrom gap row
  | .symbol c rest => rest.rowsFrom gap (row.add (rest.connector gap) c)
  | .epsilon c rest => rest.rowsFrom gap (row.add 0.0 c)
  | .optional c _ rest => rest.rowsFrom gap (row.add 0.0 c)
  | .iteration c _ rest => rest.rowsFrom gap (row.add 0.0 c)
  | .rerun c _ _ rest => rest.rowsFrom gap (row.add 0.0 c)
  | .choice branches rest => rest.rowsFrom gap (row.add 0.0 branches.head)

/-- **The rows of a page,** `page_rows`, top to bottom.  There is always one, if only an empty one.
-/
def rows (gap : α) (t : Track (Cell α)) : List (RowExtent α) := t.rowsFrom gap RowExtent.empty

/-- The height of the track of a level, or `line` if it is empty. -/
def lineOr (line : α) (t : Track (Cell α)) : α := (t.first?.map (·.box.line)).getD line

end Track

end Railroad
