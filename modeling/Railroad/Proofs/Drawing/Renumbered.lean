/-
# Drawings under other numbers

A drawing writes the labels of the nodes and takes no notice of the numbers that they are found by.
So pages that differ in the numbers only make the same drawing (`Canvas.page_renumber`).

The labels are the one thing about a node that a number is needed for, and so they are what the two
canvases are asked to agree on.  Kinds, styles and boxes are the same in both pages.
-/
import Railroad.Diagram
import Railroad.Proofs.Layout.Renumbered

namespace Railroad

open Scalar

variable {α : Type} [Scalar α] {σ : SymbolId → SymbolId}

omit [Scalar α] in
theorem Track.lineOr_renumber (line : α) (t : Track (Cell α)) :
    (t.map (·.renumber σ)).lineOr line = t.lineOr line := by
  cases t with
  | choice branches rest =>
    unfold lineOr first? map
    simp only [head_mapBranches]
    rfl
  | _ => rfl

namespace Canvas

/-- **Another canvas says the same** of the nodes with other numbers. -/
structure Agrees (σ : SymbolId → SymbolId) (cv other : Canvas α) : Prop where
  settings : other.settings = cv.settings
  chart : other.chart = cv.chart
  frameColor : other.frameColor = cv.frameColor
  label : ∀ node, other.label (node.renumber σ) = cv.label node

variable {cv other : Canvas α} (h : cv.Agrees σ other)

include h

theorem symbol_renumber (b : Brush α) (d : Direction) (left : α) (c : Cell α) :
    other.symbol b d left (c.renumber σ) = cv.symbol b d left c := by
  have hlabel : other.label (c.renumber σ).node = cv.label c.node := h.label c.node
  unfold symbol arrow
  simp only [h.settings, h.chart, hlabel]
  rfl

theorem choiceRails_renumber (b : Brush α) (x : α) (bs : Branches (Cell α)) :
    other.choiceRails b x (Track.mapBranches (·.renumber σ) bs) = cv.choiceRails b x bs := by
  unfold choiceRails arc
  cases bs with
  | last _ _ =>
    simp only [Track.mapBranches, h.settings]
    rfl
  | more _ _ others =>
    simp only [Track.mapBranches, h.settings, Track.lastMark_mapBranches]
    rfl

theorem node_renumber (b : Brush α) (d : Direction) (c : Cell α) (left cursor : α)
    (marks : List (Primitive α)) (connected last : Bool) (rest : α → Drawn α) :
    other.node b d (c.renumber σ) left cursor marks connected last rest
      = cv.node b d c left cursor marks connected last rest := by
  unfold node frame closing arrow
  simp only [h.settings, h.chart, h.frameColor]
  rfl

mutual

/-- **Drawing a level takes no notice of the numbers.** -/
theorem track_renumber : ∀ (t : Track (Cell α)) (b : Brush α) (d : Direction) (cursor : α),
    other.track b d cursor (t.map (·.renumber σ)) = cv.track b d cursor t
  | .stop, _, _, _ => by rw [Track.map, track, track]
  | .symbol c rest, b, d, cursor => by
    simp only [Track.map, track, track_renumber rest, node_renumber h, symbol_renumber h,
      Track.connects_renumber, Track.isStop_map]
    rfl
  | .epsilon c rest, b, d, cursor => by
    simp only [Track.map, track, track_renumber rest, node_renumber h, Track.isStop_map]
    rfl
  | .wrap c rest, b, d, cursor => by
    simp only [Track.map, track, track_renumber rest, node_renumber h, Track.isStop_map,
      Track.lineOr_renumber, rowTurn, arc, h.settings]
    rfl
  | .optional c body rest, b, d, cursor => by
    simp only [Track.map, track, track_renumber rest, track_renumber body, node_renumber h,
      Track.isStop_map, bypass, arc, h.settings]
    rfl
  | .iteration c body rest, b, d, cursor => by
    simp only [Track.map, track, track_renumber rest, track_renumber body, node_renumber h,
      Track.isStop_map, Track.lineOr_renumber, iterationRails, loopRails, arc, h.settings]
    rfl
  | .rerun c body between rest, b, d, cursor => by
    simp only [Track.map, track, track_renumber rest, track_renumber body, track_renumber between,
      node_renumber h, Track.isStop_map, Track.lineOr_renumber, rerunRails, bareRails, loopRails, arc,
      h.settings]
    rfl
  | .choice branches rest, b, d, cursor => by
    simp only [Track.map, track, track_renumber rest, branchMarks_renumber branches, node_renumber h,
      Track.isStop_map, Track.head_mapBranches, choiceRails_renumber h]
    rfl

theorem branchMarks_renumber : ∀ (bs : Branches (Cell α)) (b : Brush α) (d : Direction)
    (x width : α) (first : Bool),
    other.branchMarks b d x width first (Track.mapBranches (·.renumber σ) bs)
      = cv.branchMarks b d x width first bs
  | .last c body, b, d, x, width, first => by
    simp only [Track.mapBranches, branchMarks, track_renumber body, branchTurns, branchTrack, arc,
      h.settings]
    rfl
  | .more c body others, b, d, x, width, first => by
    simp only [Track.mapBranches, branchMarks, track_renumber body, branchMarks_renumber others,
      branchTurns, branchTrack, arc, h.settings]
    rfl

end

/-- **Pages that differ in the numbers make the same drawing.** -/
theorem page_renumber (t : Track (Cell α)) : other.page (t.map (·.renumber σ)) = cv.page t := by
  simp only [page, track_renumber h, Track.lineOr_renumber, brush, h.settings, h.chart]

end Canvas

end Railroad
