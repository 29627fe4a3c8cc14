/-
# Drawing a graph

A laid-out graph is drawn by walking along its levels with a cursor that moves along the track.
Forward it moves to the right; the way back of a loop is walked in reverse, with the cursor
moving to the left.  Either way the boxes stand where the layout reserved room for them, and the
nodes of a level follow each other in reading order of the walk.

Heights come from the layout.  Where a node stands horizontally is decided here: at the cursor,
for the nodes of a level; centred, for the branches of an alternation and the parts of a rerun.

A node may bring its own colors and font.  They hold for that node alone: what follows is drawn
with the brush that was in use before.  In `draw_node` that is a style which is entered and left
again; here the brush is an argument, so nothing has to be left.  That the two come to the same is
shown in `Railroad.Proofs.Drawing.Pen`.

The marks of a node come in three parts: its frame, what it draws itself, and the piece of track to
what follows (`Canvas.node`).  What the different kinds draw is named for each of them, `symbol`,
`bypass`, `iterationRails` and so on, and these know no levels: they are told where the level inside
begins and ends.  So the walk over levels is all in `Canvas.track`, and every fact about drawings
goes by induction along it.
-/
import Railroad.Drawing.Primitive
import Railroad.Layout.Page

namespace Railroad

open Scalar

variable {α : Type} [Scalar α]

/-! ## 1. Tools -/

/-- **What is drawn with:** a stroke for lines, arcs and outlines, a color and a font for labels.
It is always complete; what a node leaves open is taken from the brush around it.

A pen keeps one brush and gives it new values on the way; here each node is drawn with a brush of
its own, and `Railroad.Proofs.Drawing.Pen` shows that this is the same. -/
structure Brush (α : Type) where
  stroke : Stroke α
  label : Color
  font : Font

/-- The brush with what a node overrides. -/
def Brush.override (b : Brush α) (style : NodeStyle) : Brush α where
  stroke := { b.stroke with color := style.line.getD b.stroke.color }
  label := style.label.getD b.label
  font := style.font.getD b.font

/-- **What a drawing depends on** besides the laid-out graph: the measures, the look, the label of
each node, and the colors of the frames around nodes.  It does not change while a page is drawn. -/
structure Canvas (α : Type) where
  settings : LayoutSettings α
  chart : ChartStyle α
  label : Node → String
  frameColor : NodeKind → Color

/-- Marks, and the cursor after them, at the end of the level. -/
structure Drawn (α : Type) where
  marks : List (Primitive α)
  cursor : α

namespace Canvas

/-- The brush of the chart itself. -/
def brush (cv : Canvas α) : Brush α where
  stroke := ⟨cv.chart.line, cv.chart.lineWidth, .solid⟩
  label := cv.chart.text
  font := cv.settings.font

/-- A line. -/
def line (b : Brush α) (x y x' y' : α) : Primitive α := .line ⟨x, y⟩ ⟨x', y'⟩ b.stroke

/-- A quarter arc. -/
def arc (cv : Canvas α) (b : Brush α) (x y : α) (angle : UInt16) : Primitive α :=
  .arc ⟨x, y⟩ cv.settings.arcSize angle b.stroke

/-- An arrow head. -/
def arrow (cv : Canvas α) (b : Brush α) (x y : α) (direction : Direction) : Primitive α :=
  .arrow ⟨x, y⟩ direction cv.settings.arrowSize b.stroke.color

/-- The frame around a node, `frame`, if frames are shown.  It goes around the whole extent, and its
color depends on the kind of the node only. -/
def frame (cv : Canvas α) (c : Cell α) (left : α) : List (Primitive α) :=
  if cv.chart.showBorders then
    [.frame ⟨left, c.box.top⟩ c.extent ⟨cv.frameColor c.node.kind, 0.5, .dashed⟩]
  else []

/-! ## 2. Marks of single nodes -/

/-- **A symbol,** `draw_symbol`: its box, its label, and an arrow head where the track runs into the
box.  Terminals are rounded, nonterminals have a heavier outline. -/
def symbol (cv : Canvas α) (b : Brush α) (d : Direction) (left : α) (c : Cell α) :
    List (Primitive α) :=
  let size := c.box.size
  let line := c.box.line
  let height := size.height - cv.settings.componentGap.height
  let top := line - height / 2.0
  let (radius, stroke) := match c.node.kind with
    | .terminal => (height / 4.0, b.stroke)
    | _ => (0.0, { b.stroke with width := b.stroke.width * 1.5 })
  let tip := match d with
    | .forward => left
    | .reverse => left + size.width
  [.rect ⟨left, top⟩ ⟨size.width, height⟩ radius stroke (some cv.chart.fill),
    .text (cv.label c.node) ⟨left + size.width / 2.0, line⟩ b.font b.label,
    cv.arrow b tip line d]

/-- The empty word: plain track. -/
def epsilon (b : Brush α) (left : α) (c : Cell α) : List (Primitive α) :=
  let line := c.box.line
  [Canvas.line b left line (left + c.extent.width) line]

/-- An option without its level, `draw_option`: the track on either side, and the bypass above. -/
def bypass (cv : Canvas α) (b : Brush α) (x : α) (c : Cell α) : List (Primitive α) :=
  let gap := cv.settings.componentGap
  let arc := cv.settings.arcSize
  let width := c.box.size.width
  let line := c.box.line
  let skip := c.box.top + gap.height / 2.0
  let xa := x + gap.width / 4.0
  let xv := xa + arc / 2.0
  let xb := x + width - gap.width / 4.0
  let xw := xb - arc / 2.0
  [Canvas.line b x line (x + gap.width) line,
    Canvas.line b (x + width - gap.width) line (x + width) line,
    cv.arc b (xa - arc / 2.0) (line - arc) 0,
    Canvas.line b xv (line - arc / 2.0) xv (skip + arc / 2.0),
    cv.arc b xv skip 180,
    Canvas.line b (xv + arc / 2.0) skip (xw - arc / 2.0) skip,
    cv.arc b (xw - arc) skip 270,
    Canvas.line b xw (skip + arc / 2.0) xw (line - arc / 2.0),
    cv.arc b xw (line - arc) 90]

/-- The turns on both sides of a loop, `loop_rails`, from the track at `line` down to `lower` and
back. -/
def loopRails (cv : Canvas α) (b : Brush α) (x width line lower : α) : List (Primitive α) :=
  let gap := cv.settings.componentGap.width
  let arc := cv.settings.arcSize
  let x0 := x + gap / 4.0 + arc / 2.0
  let x1 := x + width - gap / 4.0 - arc / 2.0
  [cv.arc b x0 line 180,
    Canvas.line b x0 (line + arc / 2.0) x0 (lower - arc / 2.0),
    cv.arc b x0 (lower - arc) 90,
    cv.arc b (x1 - arc) line 270,
    Canvas.line b x1 (line + arc / 2.0) x1 (lower - arc / 2.0),
    cv.arc b (x1 - arc) (lower - arc) 0]

/-- An iteration without its level, `draw_iteration`: the track, the rails, and the way to the level
and from it. -/
def iterationRails (cv : Canvas α) (b : Brush α) (x : α) (c : Cell α) (bodyLine : α) :
    List (Primitive α) :=
  let gap := cv.settings.componentGap.width
  let width := c.box.size.width
  let line := c.box.line
  let rail := gap / 4.0 + cv.settings.arcSize
  Canvas.line b x line (x + width) line ::
    cv.loopRails b x width line bodyLine ++
    [Canvas.line b (x + rail) bodyLine (x + gap) bodyLine,
      Canvas.line b (x + width - gap) bodyLine (x + width - rail) bodyLine]

/-- The rails of a rerun that runs back over a level on the track `bodyLine`, which reaches from
`left` to `right`. -/
def rerunRails (cv : Canvas α) (b : Brush α) (x : α) (c : Cell α) (bodyLine left right : α) :
    List (Primitive α) :=
  let gap := cv.settings.componentGap.width
  let width := c.box.size.width
  let arc := cv.settings.arcSize
  cv.loopRails b x width c.box.line bodyLine ++
    [Canvas.line b (x + gap / 4.0 + arc) bodyLine left bodyLine,
      Canvas.line b right bodyLine (x + width - gap / 4.0 - arc) bodyLine]

/-- The rails of a rerun that runs back over nothing. -/
def bareRails (cv : Canvas α) (b : Brush α) (x : α) (c : Cell α) : List (Primitive α) :=
  let gap := cv.settings.componentGap
  let width := c.box.size.width
  let arc := cv.settings.arcSize
  let lower := c.box.bottom - gap.height / 2.0
  cv.loopRails b x width c.box.line lower ++
    [Canvas.line b (x + gap.width / 4.0 + arc) lower (x + width - gap.width / 4.0 - arc) lower]

/-- The track into an alternation and out of it and, if there are several branches, the rails down
to the last of them. -/
def choiceRails (cv : Canvas α) (b : Brush α) (x : α) (branches : Branches (Cell α)) :
    List (Primitive α) :=
  let arc := cv.settings.arcSize
  let head := branches.head
  let width := head.extent.width
  let line := head.box.line
  let track := [Canvas.line b x line (x + 1.5 * arc) line,
    Canvas.line b (x + width - 1.5 * arc) line (x + width) line]
  match branches with
  | .last _ _ => track
  | .more _ _ others =>
    let lastLine := others.lastMark.box.line
    track ++
      [cv.arc b x line 270,
        Canvas.line b (x + arc) (line + arc / 2.0) (x + arc) (lastLine - arc / 2.0),
        cv.arc b (x + width - arc) line 180,
        Canvas.line b (x + width - arc) (line + arc / 2.0) (x + width - arc) (lastLine - arc / 2.0)]

/-- The turn from the rails of an alternation into a branch below the first, and back. -/
def branchTurns (cv : Canvas α) (b : Brush α) (x width : α) (c : Cell α) : List (Primitive α) :=
  let arc := cv.settings.arcSize
  let line := c.box.line
  [cv.arc b (x + arc) (line - arc) 90, cv.arc b (x + width - 2.0 * arc) (line - arc) 0]

/-- The track from the rails of an alternation to a branch, which reaches from `left` to `right`, and
back. -/
def branchTrack (cv : Canvas α) (b : Brush α) (x width : α) (c : Cell α) (left right : α) :
    List (Primitive α) :=
  let arc := cv.settings.arcSize
  let line := c.box.line
  [Canvas.line b (x + 1.5 * arc) line left line, Canvas.line b right line (x + width - 1.5 * arc) line]

/-- The way from the end of a row, at the cursor, to the beginning of the next one, `draw_wrap`:
down to between the rows, back to the left margin, and down to the track at `nextLine`. -/
def rowTurn (cv : Canvas α) (b : Brush α) (cursor : α) (c : Cell α) (nextLine : α) :
    List (Primitive α) :=
  let gap := cv.settings.componentGap.width
  let arc := cv.settings.arcSize
  let origin := cv.settings.margin.left
  let line := c.box.line
  let bottom := c.box.bottom
  let right := cursor + gap / 4.0
  let left := origin - gap / 4.0
  [Canvas.line b cursor line right line,
    cv.arc b (right - arc / 2.0) line 270,
    Canvas.line b (right + arc / 2.0) (line + arc / 2.0) (right + arc / 2.0) (bottom - arc / 2.0),
    cv.arc b (right - arc / 2.0) (bottom - arc) 0,
    Canvas.line b right bottom left bottom,
    cv.arc b (left - arc / 2.0) bottom 180,
    Canvas.line b (left - arc / 2.0) (bottom + arc / 2.0) (left - arc / 2.0) (nextLine - arc / 2.0),
    cv.arc b (left - arc / 2.0) (nextLine - arc) 90,
    Canvas.line b left nextLine origin nextLine]

/-- The end of the page's track behind its last node: a piece of track and an arrow head. -/
def closing (cv : Canvas α) (b : Brush α) (cursor line : α) : List (Primitive α) :=
  let tip := cursor + cv.settings.componentGap.width / 4.0
  [Canvas.line b cursor line tip line, cv.arrow b (tip + cv.settings.arrowSize) line .forward]

/-! ## 3. Walking along a level -/

/-- The left end of a node that the cursor is at. -/
def leftEnd (d : Direction) (cursor : α) (c : Cell α) : α :=
  match d with
  | .forward => cursor
  | .reverse => cursor - c.extent.width

/-- The cursor behind a node with the given left end. -/
def behind (d : Direction) (left : α) (c : Cell α) : α :=
  match d with
  | .forward => left + c.extent.width
  | .reverse => left

/-- Where a walk from one of two points to the other begins. -/
def start (d : Direction) (left right : α) : α :=
  match d with
  | .forward => left
  | .reverse => right

/-- **Puts the marks of a node together with what follows,** as `draw_node` does around the drawing
of each kind.  A connector may follow the node, and its last piece of track if it ends the page;
`rest` draws the nodes behind it. -/
def node (cv : Canvas α) (b : Brush α) (d : Direction) (c : Cell α) (left cursor : α)
    (marks : List (Primitive α)) (connected last : Bool) (rest : α → Drawn α) : Drawn α :=
  let line := c.box.line
  let next := if connected then cursor + d.sign * cv.settings.componentGap.width / 2.0 else cursor
  let connector :=
    if connected then [Canvas.line (b.override c.node.style) cursor line next line] else []
  let ending := if last && c.box.onPage then cv.closing b next line else []
  let rest := rest next
  ⟨cv.frame c left ++ marks ++ connector ++ ending ++ rest.marks, rest.cursor⟩

mutual

/-- **Draws a level** from the cursor on, `draw_level`.  Inner levels are drawn in the direction of
the node, but for the body of an iteration and what is between two runs of a rerun. -/
def track (cv : Canvas α) (b : Brush α) (d : Direction) (cursor : α) : Track (Cell α) → Drawn α
  | .stop => ⟨[], cursor⟩
  | .symbol c rest =>
    let left := leftEnd d cursor c
    cv.node b d c left (behind d left c) (cv.symbol (b.override c.node.style) d left c)
      (rest.connects Cell.breaks) rest.isStop fun cursor => track cv b d cursor rest
  | .epsilon c rest =>
    let left := leftEnd d cursor c
    cv.node b d c left (behind d left c) (epsilon (b.override c.node.style) left c)
      false rest.isStop fun cursor => track cv b d cursor rest
  | .wrap c rest =>
    let left := leftEnd d cursor c
    let turns := d == .forward && c.box.hasHeight && !rest.isStop
    cv.node b d c left (if turns then cv.settings.margin.left else behind d left c)
      (if turns then cv.rowTurn (b.override c.node.style) cursor c (rest.lineOr c.box.line) else [])
      false rest.isStop fun cursor => track cv b d cursor rest
  | .optional c body rest =>
    let left := leftEnd d cursor c
    let own := b.override c.node.style
    let gap := cv.settings.componentGap.width
    let inside := track cv own d (start d (left + gap) (left + c.box.size.width - gap)) body
    cv.node b d c left (behind d left c) (cv.bypass own left c ++ inside.marks)
      false rest.isStop fun cursor => track cv b d cursor rest
  | .iteration c body rest =>
    let left := leftEnd d cursor c
    let own := b.override c.node.style
    let gap := cv.settings.componentGap.width
    let inside :=
      track cv own d.flip (start d.flip (left + gap) (left + c.box.size.width - gap)) body
    cv.node b d c left (behind d left c)
      (cv.iterationRails own left c (body.lineOr c.box.line) ++ inside.marks)
      false rest.isStop fun cursor => track cv b d cursor rest
  | .rerun c body between rest =>
    let left := leftEnd d cursor c
    let own := b.override c.node.style
    let width := c.box.size.width
    let line := c.box.line
    let bodyLeft := left + (width - c.box.group.width) / 2.0
    let bodyRight := bodyLeft + c.box.group.width
    let inside := track cv own d (start d bodyLeft bodyRight) body
    let backLeft := left + (width - c.box.between.width) / 2.0
    let backRight := backLeft + c.box.between.width
    let back := track cv own d.flip (start d.flip backLeft backRight) between
    let rails :=
      if between.isStop then cv.bareRails own left c
      else cv.rerunRails own left c (between.lineOr line) backLeft backRight
    cv.node b d c left (behind d left c)
      (Canvas.line own left line bodyLeft line :: Canvas.line own bodyRight line (left + width) line ::
        inside.marks ++ rails ++ back.marks)
      false rest.isStop fun cursor => track cv b d cursor rest
  | .choice branches rest =>
    let c := branches.head
    let left := leftEnd d cursor c
    let own := b.override c.node.style
    cv.node b d c left (behind d left c)
      (cv.choiceRails own left branches ++ branchMarks cv own d left c.extent.width true branches)
      false rest.isStop fun cursor => track cv b d cursor rest

/-- Draws the branches of an alternation, `draw_alternation`, whose left end is at `x`, each in the
middle of it.  The `first` one lies on the alternation's own track, in the style of the
alternation. -/
def branchMarks (cv : Canvas α) (b : Brush α) (d : Direction) (x width : α) (first : Bool) :
    Branches (Cell α) → List (Primitive α)
  | .last c body =>
    let own := if first then b else b.override c.node.style
    let left := x + (width - c.box.size.width) / 2.0
    let right := left + c.box.size.width
    (if first then [] else cv.branchTurns own x width c) ++ cv.branchTrack own x width c left right ++
      (track cv own d (start d left right) body).marks
  | .more c body others =>
    let own := if first then b else b.override c.node.style
    let left := x + (width - c.box.size.width) / 2.0
    let right := left + c.box.size.width
    (if first then [] else cv.branchTurns own x width c) ++ cv.branchTrack own x width c left right ++
      (track cv own d (start d left right) body).marks ++ branchMarks cv b d x width false others

end

/-- **Draws a page,** `draw`: a piece of track that leads in, and then the top level, from the left
margin on.  The page has no piece of track that leads out here: that is drawn by the last node,
which knows where it ends. -/
def page (cv : Canvas α) (t : Track (Cell α)) : List (Primitive α) :=
  let origin := cv.settings.margin.left
  let line := t.lineOr 0.0
  let leadIn := cv.settings.componentGap.width / 4.0
  Canvas.line cv.brush (origin - leadIn) line origin line ::
    (cv.track cv.brush .forward origin t).marks

end Canvas

end Railroad
