/-
# Placing the nodes of a page

With all sizes known, every node is given its heights on the page.  All nodes of a row share the
track of the row; a level inside a node is placed by the node's own box:

* the level of an option hangs below the bypass, on the option's own track;
* the level of an iteration begins at the iteration's track;
* the body of a rerun is on the rerun's track, and what lies between two runs begins right below
  the body;
* the branches of an alternation lie one below the other with a gap between them, the first of
  them on the alternation's track.

`Track.placed` does this for the rows of the page and for the levels inside alike, `place_page`,
`place_level` and `place_node` in one.  A nested level is the page with a single row, since none of
its wraps has a height.

Only heights are set here.  How far to the right a node is turns out when it is drawn
(`Railroad.Drawing.Render`).
-/
import Railroad.Layout.Box

namespace Railroad

open Scalar

variable {α : Type} [Scalar α]

namespace Cell

/-- The cell on a track: its top is as far above the track as its ascent, and it ends its whole
extent further down. -/
def onLine (line : α) (c : Cell α) : Cell α :=
  let top := line - c.box.ascent
  c.mapBox (·.place top line (top + c.extent.height))

/-- The cell below a height, as a branch is: it begins there, and its track follows from its ascent.
-/
def below (top : α) (c : Cell α) : Cell α :=
  c.mapBox (·.place top (top + c.box.ascent) (top + c.box.size.height))

end Cell

namespace Track

mutual

/-- **Places the nodes of a level.**  Its current row begins at the height `top` and has the extent
`row`.  Only heights are found here: where a node stands from left to right is found when it is
drawn. -/
def placed (gap : Size α) (top : α) (row : RowExtent α) : Track (Cell α) → Track (Cell α)
  | .stop => .stop
  | .wrap c rest =>
    let c := c.mapBox (·.place top (top + row.ascent) (top + c.box.size.height))
    if c.box.hasHeight then .wrap c (placed gap (top + row.height) (rest.measure gap.width) rest)
    else .wrap c (placed gap top row rest)
  | .symbol c rest => .symbol (c.onLine (top + row.ascent)) (placed gap top row rest)
  | .epsilon c rest => .epsilon (c.onLine (top + row.ascent)) (placed gap top row rest)
  | .optional c body rest =>
    let c := c.onLine (top + row.ascent)
    .optional c (placed gap (c.box.top + gap.height / 2.0) (body.measure gap.width) body)
      (placed gap top row rest)
  | .iteration c body rest =>
    let c := c.onLine (top + row.ascent)
    .iteration c (placed gap c.box.line (body.measure gap.width) body) (placed gap top row rest)
  | .rerun c body between rest =>
    let c := c.onLine (top + row.ascent)
    .rerun c (placed gap c.box.top (body.measure gap.width) body)
      (placed gap (c.box.top + c.box.group.height) (between.measure gap.width) between)
      (placed gap top row rest)
  | .choice (.last c body) rest =>
    let c := c.onLine (top + row.ascent)
    .choice (.last c (placed gap c.box.top (body.measure gap.width) body)) (placed gap top row rest)
  | .choice (.more c body others) rest =>
    let c := c.onLine (top + row.ascent)
    .choice
      (.more c (placed gap c.box.top (body.measure gap.width) body)
        (placedBranches gap (c.box.top + (c.box.size.height + gap.height)) others))
      (placed gap top row rest)

/-- Places the further branches of an alternation, the first of them below the height `top`. -/
def placedBranches (gap : Size α) (top : α) : Branches (Cell α) → Branches (Cell α)
  | .last c body => .last (c.below top) (placed gap top (body.measure gap.width) body)
  | .more c body others =>
    .more (c.below top) (placed gap top (body.measure gap.width) body)
      (placedBranches gap (top + (c.box.size.height + gap.height)) others)

end

end Track

end Railroad
