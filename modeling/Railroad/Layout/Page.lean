/-
# Laying out a graph

`Graph.layout` sizes the nodes of a graph, breaks its top level into rows if a page width is set,
and places the nodes row by row:

* `Track.sized` gives every node its size, from the inside out;
* `Graph.breakRows` decides where rows end and puts wraps there (`insert_wraps`);
* `Track.frozen` gives the wraps in use their heights (`freeze_rows`);
* `Track.resized` sizes every node once more, with the rows set;
* `Track.placed` gives every node its heights on the page (`place_page`).

Breaking puts wraps into the graph, and they stay there.  Of the boxes nothing stays: a layout
begins with `reset`, which overwrites the box of every node, and all that the steps above read of a
box was written by `reset` or by one of them before.  So boxes that an earlier layout has left in a
graph could make no difference, and here there is no place for them: a graph carries none, and the
boxes of a layout are found in its result.  What an earlier layout does leave behind, its wraps, is
part of the graph (`Railroad.Proofs.Layout.History`).

The result is checked node by node in the order of the array (`validate`): a size, an ascent or a
height that is negative or not finite is an error.  The graph keeps its wraps even so.  The page as
a whole is not checked, and its totals can be infinite although no node is at fault
(`Railroad.Proofs.Layout.Totals`).
-/
import Railroad.Layout.Break
import Railroad.Layout.Measure
import Railroad.Layout.Place

namespace Railroad

open Scalar

variable {α : Type} [Scalar α]

/-! ## 1. Boxes that cannot be drawn -/

/-- What is wrong with a box: one of its sizes, its ascent, one of its heights on the page, or that
it ends above its top. -/
inductive Misfit (α : Type) where
  | size (size : Size α)
  | ascent (ascent : α)
  | position (point : Point α)
  | inverted
deriving Repr, DecidableEq

/-- **A node with a box that cannot be drawn,** told by its serial number and kind. -/
structure GeometryError (α : Type) where
  serial : Nat
  kind : NodeKind
  misfit : Misfit α
deriving Repr, DecidableEq

/-- A misfit in words. -/
def Misfit.text : Misfit Float32 → String
  | .size s =>
    "size Size \x7b width: " ++ Number.exact s.width ++ ", height: " ++ Number.exact s.height ++ " \x7d"
  | .ascent a => "ascent " ++ Number.plain a
  | .position p =>
    "position Point \x7b x: " ++ Number.exact p.x ++ ", y: " ++ Number.exact p.y ++ " \x7d"
  | .inverted => "box ends above its start"

/-- The wording of a geometry error. -/
def GeometryError.message (e : GeometryError Float32) : String :=
  "invalid geometry on " ++ e.kind.text ++ " node (serial " ++ toString e.serial ++ "): " ++ e.misfit.text

namespace Cell

/-- How far sizes that were added up may be off. -/
def tolerance : α := 0.001

/-- **The first thing wrong with a box.**  Sizes must be finite and not negative, the track must lie
inside the box, the heights on the page must be finite and not negative, and the box must not end
above its top.  The order of these checks is the order in which their faults are reported. -/
def misfit? (c : Cell α) : Option (Misfit α) :=
  let box := c.box
  match [box.size, box.group, box.between].find? (!·.isUsable) with
  | some size => some (.size size)
  | none =>
    if !isUsable box.ascent || lt (c.extent.height + tolerance) box.ascent then
      some (.ascent box.ascent)
    else match [box.top, box.line, box.bottom].find? (!isUsable ·) with
    | some y => some (.position ⟨0.0, y⟩)
    | none => if lt (box.bottom + tolerance) box.top then some .inverted else none

end Cell

/-! ## 2. The layout -/

/-- **A graph laid out:** its nodes with their boxes, the rows of the page, the size of their
content and the size of the page.  The size of the page is that of the content with the margins, and
with the room at the end of rows. -/
structure Layout (α : Type) where
  track : Track (Cell α)
  rows : List (RowExtent α)
  content : Size α
  size : Size α

namespace Layout

/-- The heights of the rows, top to bottom. -/
def rowHeights (l : Layout α) : List α := l.rows.map RowExtent.height

end Layout

/-- The nodes of a graph in the order of the array, with the boxes they have in a tree that was
read off it.  A node that the tree does not come by has the empty box. -/
def Graph.cells (g : Graph) (t : Track (Cell α)) : List (Cell α) :=
  let boxes := t.toList.foldl (fun boxes c => boxes.setIfInBounds c.id c.box)
    (Array.replicate g.nodes.size Box.zero)
  (List.range g.nodes.size).filterMap fun id => do
    return { id, node := ← g.nodes[id]?, box := ← boxes[id]? }

/-- Room to the right of the widest row, `tail_allowance`, for the closing arrow or for the turn
into the next row. -/
def LayoutSettings.tail (s : LayoutSettings α) : α :=
  s.componentGap.width / 4.0 + larger s.arrowSize (s.arcSize / 2.0)

/-- The page around rows: the widest of them and all their heights, with room at the end of the
rows and the margin on all sides. -/
def LayoutSettings.page (s : LayoutSettings α) (rows : List (RowExtent α)) : Size α × Size α :=
  let content : Size α := ⟨largest (rows.map (·.width)), total (rows.map RowExtent.height)⟩
  let m := s.margin
  (content,
    ⟨m.left + content.width + s.tail + m.right, m.top + content.height + m.bottom⟩)

namespace Graph

/-- Breaks the top level where the page width asks for it: the graph with its wraps, and those of
them that are used. -/
def breakRows (g : Graph) (r : Ruler α) : Graph × List NodeId :=
  match r.settings.pageWidth with
  | none => (g, [])
  | some limit =>
    g.breakAfterAll (Stop.breaks limit ((g.track.sized r).stops r.settings.componentGap.width))

/-- The tree of a graph with all sizes and all heights, and the rows of its page: the nodes are
sized, the rows set, and the nodes sized once more before they are placed.  The second sizing
changes nothing (`Railroad.Proofs.Layout.Resized`). -/
def arrange (g : Graph) (r : Ruler α) (used : List NodeId) : Track (Cell α) × List (RowExtent α) :=
  let gap := r.settings.componentGap
  let page := ((g.track.sized r).frozen used.contains).resized r
  (page.placed gap r.settings.margin.top (page.measure gap.width), page.rows gap.width)

/-- **Lays out a graph,** `layout`: the layout or what is wrong with it, and the graph with the
wraps that were put into it.  Of several nodes at fault the first in the array counts.  The wraps
stay in it even if the layout fails. -/
def layout (g : Graph) (r : Ruler α) : Except (GeometryError α) (Layout α) × Graph :=
  let (g, used) := g.breakRows r
  let (track, rows) := g.arrange r used
  let misfits := (g.cells track).findSome? fun c =>
    c.misfit?.map (GeometryError.mk c.node.serial c.node.kind)
  match misfits with
  | some e => (.error e, g)
  | none =>
    let (content, size) := r.settings.page rows
    (.ok { track, rows, content, size }, g)

end Graph

end Railroad
