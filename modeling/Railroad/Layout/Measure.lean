/-
# Sizes

Sizes are found from the inside out, `size_level` and `size_node`.  The size of a node depends on the
settings, on its label if it is a symbol, and on the rows that its levels make; it does not depend on
where the node is, nor on how the page is broken into rows.

A layout sizes its graph twice.  The first pass begins with `reset`: no node has a box yet, and
whatever an earlier layout found is gone before anything reads it.  That is why a graph carries no
boxes here and `Track.sized` makes a tree with boxes of one without.  The second pass comes when
the rows are set.  It runs over a tree that has boxes, and keeps of them what is not a size:
`Track.resized`.  That it changes nothing, and that the first pass is nothing else than the second
one over boxes that were reset, is shown in `Railroad.Proofs.Layout.Resized`.

`Ruler` gathers what sizes depend on, so that a layout can be looked at without a grammar: the
settings, and the size of the label of every node.
-/
import Railroad.Layout.Box

namespace Railroad

open Scalar

variable {α : Type} [Scalar α]

/-- **What sizes depend on:** the settings, and the size of a node's label.  The label may depend on
the whole node, so that nothing is presumed about how it is found. -/
structure Ruler (α : Type) where
  settings : LayoutSettings α
  label : Node → Size α

namespace Ruler

/-- The ruler of a grammar's diagrams, `label_size`: labels in the font of their node, or else in
that of the chart. -/
def ofSymbols [Shaping α] (settings : LayoutSettings α) (symbols : SymbolTable) : Ruler α where
  settings := settings
  label node :=
    settings.textMetrics.labelSize (node.style.font.getD settings.font)
      ((node.symbol.bind symbols.name?).getD "")

/-- A symbol: its label with a gap around it.  A terminal is not narrower than an arc, and half a
component gap is left above and below. -/
def symbolBox (r : Ruler α) (node : Node) : Box α :=
  let s := r.settings
  let label := r.label node
  let width := label.width + 2.0 * s.symbolGap.width
  let width := if node.kind == .terminal then larger width s.arcSize else width
  let height := label.height + 2.0 * s.symbolGap.height + s.componentGap.height
  .ofSize ⟨width, height⟩ (height / 2.0)

/-- The empty word: one gap of track. -/
def epsilonBox (r : Ruler α) : Box α :=
  let s := r.settings
  let height := s.font.lineHeight + s.componentGap.height
  .ofSize ⟨s.componentGap.width, height⟩ (height / 2.0)

/-- An option: its level, with a bypass above and a gap on either side. -/
def optionalBox (r : Ruler α) (inner : RowExtent α) : Box α :=
  let gap := r.settings.componentGap
  .ofSize ⟨inner.width + 2.0 * gap.width, inner.height + gap.height / 2.0⟩
    (gap.height / 2.0 + inner.ascent)

/-- An iteration: its level below the track, with a gap on either side. -/
def iterationBox (r : Ruler α) (inner : RowExtent α) : Box α :=
  let s := r.settings
  let above := (s.font.lineHeight + s.componentGap.height) / 2.0
  .ofSize ⟨inner.width + 2.0 * s.componentGap.width, above + inner.height⟩ above

/-- A rerun: its body on the track and below it what comes between two runs, or a bare way
back. -/
def rerunBox (r : Ruler α) (body : RowExtent α) (between : Option (RowExtent α)) : Box α :=
  let gap := r.settings.componentGap
  match between with
  | some between =>
    { Box.ofSize ⟨larger body.width between.width + 2.0 * gap.width, body.height + between.height⟩
        body.ascent with
      group := body.size, between := between.size }
  | none =>
    { Box.ofSize ⟨body.width + 2.0 * gap.width, body.height + gap.height / 2.0⟩ body.ascent with
      group := body.size }

/-- The heights of some rows with gaps between them.  No gap comes before the first. -/
def stackedHeight (gap : α) : List α → α
  | [] => 0.0
  | height :: heights => heights.foldl (fun sum height => sum + gap + height) (0.0 + height)

/-- An alternation as a whole, `size_alternation`: its branches one below the other, with a gap on
either side. -/
def groupSize (r : Ruler α) (branches : List (Size α)) : Size α :=
  let gap := r.settings.componentGap
  ⟨largest (branches.map (·.width)) + 2.0 * gap.width, stackedHeight gap.height (branches.map (·.height))⟩

end Ruler

namespace Track

mutual

/-- **Gives every node of a level its size,** where no node had a box before.  What a node owns is
sized first and then measured as a row; no wrap in it has a height yet, so it is one row. -/
def sized (r : Ruler α) : Track Spot → Track (Cell α)
  | .stop => .stop
  | .symbol b rest => .symbol ⟨b, r.symbolBox b.node⟩ (sized r rest)
  | .epsilon b rest => .epsilon ⟨b, r.epsilonBox⟩ (sized r rest)
  | .wrap b rest => .wrap ⟨b, .zero⟩ (sized r rest)
  | .optional b body rest =>
    let body := sized r body
    .optional ⟨b, r.optionalBox (body.measure r.settings.componentGap.width)⟩ body (sized r rest)
  | .iteration b body rest =>
    let body := sized r body
    .iteration ⟨b, r.iterationBox (body.measure r.settings.componentGap.width)⟩ body (sized r rest)
  | .rerun b body between rest =>
    let gap := r.settings.componentGap.width
    let body := sized r body
    let between := sized r between
    let box := r.rerunBox (body.measure gap) (if between.isStop then none else some (between.measure gap))
    .rerun ⟨b, box⟩ body between (sized r rest)
  | .choice branches rest =>
    let branches := sizedBranches r branches
    let group := r.groupSize (branches.marks.map (·.box.size))
    .choice (branches.mapMarks (·.mapBox fun box => { box with group })) (sized r rest)

/-- Gives every branch its size, and every node inside. -/
def sizedBranches (r : Ruler α) : Branches Spot → Branches (Cell α)
  | .last b body =>
    let body := sized r body
    let row := body.measure r.settings.componentGap.width
    .last ⟨b, .ofSize row.size row.ascent⟩ body
  | .more b body others =>
    let body := sized r body
    let row := body.measure r.settings.componentGap.width
    .more ⟨b, .ofSize row.size row.ascent⟩ body (sizedBranches r others)

end

mutual

/-- **Sizes the nodes of a level once more,** over the boxes that they have.  A node is given its
size, its ascent and the sizes of the levels inside it, all found afresh; whatever else is in its box
stays.  The height of a wrap is not found from sizes, so wraps are passed over. -/
def resized (r : Ruler α) : Track (Cell α) → Track (Cell α)
  | .stop => .stop
  | .symbol c rest => .symbol (c.mapBox (·.resize (r.symbolBox c.node))) (resized r rest)
  | .epsilon c rest => .epsilon (c.mapBox (·.resize r.epsilonBox)) (resized r rest)
  | .wrap c rest => .wrap c (resized r rest)
  | .optional c body rest =>
    let body := resized r body
    let box := r.optionalBox (body.measure r.settings.componentGap.width)
    .optional (c.mapBox (·.resize box)) body (resized r rest)
  | .iteration c body rest =>
    let body := resized r body
    let box := r.iterationBox (body.measure r.settings.componentGap.width)
    .iteration (c.mapBox (·.resize box)) body (resized r rest)
  | .rerun c body between rest =>
    let gap := r.settings.componentGap.width
    let body := resized r body
    let between := resized r between
    let box := r.rerunBox (body.measure gap) (if between.isStop then none else some (between.measure gap))
    .rerun (c.mapBox (·.resizeRerun box !between.isStop)) body between (resized r rest)
  | .choice branches rest =>
    let branches := resizedBranches r branches
    let group := r.groupSize (branches.marks.map (·.box.size))
    .choice (branches.mapMarks (·.mapBox fun box => { box with group })) (resized r rest)

/-- Sizes every branch once more, and every node inside. -/
def resizedBranches (r : Ruler α) : Branches (Cell α) → Branches (Cell α)
  | .last c body =>
    let body := resized r body
    let row := body.measure r.settings.componentGap.width
    .last (c.mapBox (·.resize (.ofSize row.size row.ascent))) body
  | .more c body others =>
    let body := resized r body
    let row := body.measure r.settings.componentGap.width
    .more (c.mapBox (·.resize (.ofSize row.size row.ascent))) body (resizedBranches r others)

end

end Track

end Railroad
