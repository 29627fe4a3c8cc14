/-
# Wraps that break nothing

A wrap without a height is as good as not there.  `Track.tidy` takes such wraps off a page and
forgets where the nodes of its level lead, by which alone a page with more wraps could still be
told from one with fewer.

Every pass over a page sees no more than its tidy form: measuring a row (`measureFrom_tidy`),
listing the rows (`rowsFrom_tidy`) and the nodes that rows may have to end after (`stops_tidy`),
and placing the nodes (`placed_tidy`).  Which wraps have a height is settled by those that are used
(`frozenFrom_tidy`).

With this a comparison of two pages that differ in wraps becomes an equality: their tidy forms are
the same.  So the passes need not be gone through again for graphs with wraps, and each of the
lemmas here is an equation that commutes a pass with `tidy`.
-/
import Railroad.Layout.Page
import Railroad.Proofs.Graph.Track

namespace Railroad

open Scalar

variable {α : Type} [Scalar α]

/-! ## 1. Tidy pages -/

/-- The node, when only whether it leads anywhere is known of its links. -/
def Node.unlinked (node : Node) : Node := node.link (node.next.map fun _ => 0) false

namespace Cell

/-- The cell with such a node. -/
def unlinked (c : Cell α) : Cell α := { c with node := c.node.unlinked }

/-- The place of a node and its box, unless it is a wrap. -/
def held (c : Cell α) : Option (NodeId × Box α) :=
  if c.node.kind = .wrap then none else some (c.id, c.box)

/-- A wrap of which nothing is known but its box. -/
def blank (c : Cell α) : Cell α := { id := 0, node := { serial := 0, kind := .wrap }, box := c.box }

end Cell

namespace Track

/-- The level begins with a wrap. -/
def startsWithWrap {β : Type} : Track β → Bool
  | .wrap _ _ => true
  | _ => false

/-- **Wraps are wraps and stand behind other nodes,** never behind each other.  That is how wraps
are put into a graph, and no layout changes it. -/
def Spaced : Track Spot → Prop
  | .stop => True
  | .wrap spot rest => spot.node.kind = .wrap ∧ rest.startsWithWrap = false ∧ rest.Spaced
  | .symbol _ rest => rest.Spaced
  | .epsilon _ rest => rest.Spaced
  | .optional _ _ rest => rest.Spaced
  | .iteration _ _ rest => rest.Spaced
  | .rerun _ _ _ rest => rest.Spaced
  | .choice _ rest => rest.Spaced

/-- **A page without the wraps that break nothing,** and without its links.  That is what two
layouts of one graph have in common. -/
def tidy : Track (Cell α) → Track (Cell α)
  | .stop => .stop
  | .wrap c rest => if c.box.hasHeight then .wrap c.blank rest.tidy else rest.tidy
  | .symbol c rest => .symbol c.unlinked rest.tidy
  | .epsilon c rest => .epsilon c.unlinked rest.tidy
  | .optional c body rest => .optional c.unlinked body rest.tidy
  | .iteration c body rest => .iteration c.unlinked body rest.tidy
  | .rerun c body between rest => .rerun c.unlinked body between rest.tidy
  | .choice branches rest => .choice (branches.mapHead Cell.unlinked) rest.tidy

/-! ## 2. Passes over tidy pages -/

/-- A symbol is joined to the same successor across a wrap that breaks nothing. -/
theorem connects_tidy {t : Track (Cell α)} (h : (t.map Cell.toSpot).Spaced) :
    t.tidy.connects Cell.breaks = t.connects Cell.breaks := by
  cases t with
  | wrap c rest =>
    obtain ⟨hk, hrest, -⟩ := h
    by_cases hh : c.box.hasHeight = true
    · simp [tidy, connects, Cell.breaks, Cell.blank, hh, hk]
    · rw [tidy, if_neg hh]
      cases rest with
      | wrap _ _ => exact absurd hrest (by simp [map, startsWithWrap])
      | _ => simp [tidy, connects, startsWithSymbol, Cell.breaks, hh]
  | _ => rfl

theorem connector_tidy (gap : α) (t : Track (Cell α)) (h : (t.map Cell.toSpot).Spaced) :
    t.tidy.connector gap = t.connector gap := by
  rw [connector, connector, connects_tidy h]

@[simp] theorem add_unlinked (row : RowExtent α) (connector : α) (c : Cell α) :
    row.add connector c.unlinked = row.add connector c := rfl

@[simp] theorem head_mapHead {β : Type} (f : β → β) (bs : Branches β) :
    (bs.mapHead f).head = f bs.head := by
  cases bs <;> rfl

theorem measureFrom_tidy (gap : α) : ∀ (t : Track (Cell α)) (row : RowExtent α),
    (t.map Cell.toSpot).Spaced → t.tidy.measureFrom gap row = t.measureFrom gap row
  | .stop, _, _ => rfl
  | .wrap c rest, row, ⟨_, _, hr⟩ => by
    rw [tidy, measureFrom]
    by_cases hh : c.box.hasHeight = true
    · rw [if_pos hh, if_pos hh, measureFrom]
      exact if_pos hh
    · rw [if_neg hh, if_neg hh, measureFrom_tidy gap rest row hr]
  | .symbol c rest, row, h => by
    rw [tidy, measureFrom, measureFrom, connector_tidy gap rest h, add_unlinked,
      measureFrom_tidy gap rest _ h]
  | .epsilon c rest, row, h | .optional c _ rest, row, h | .iteration c _ rest, row, h
  | .rerun c _ _ rest, row, h => by
    rw [tidy, measureFrom, measureFrom, add_unlinked, measureFrom_tidy gap rest _ h]
  | .choice branches rest, row, h => by
    rw [tidy, measureFrom, measureFrom, head_mapHead, add_unlinked, measureFrom_tidy gap rest _ h]

theorem measure_tidy (gap : α) {t : Track (Cell α)} (h : (t.map Cell.toSpot).Spaced) :
    t.tidy.measure gap = t.measure gap := measureFrom_tidy gap t _ h

theorem rowsFrom_tidy (gap : α) : ∀ (t : Track (Cell α)) (row : RowExtent α),
    (t.map Cell.toSpot).Spaced → t.tidy.rowsFrom gap row = t.rowsFrom gap row
  | .stop, _, _ => rfl
  | .wrap c rest, row, ⟨_, _, hr⟩ => by
    rw [tidy, rowsFrom]
    by_cases hh : c.box.hasHeight = true
    · rw [if_pos hh, if_pos hh, rowsFrom, rowsFrom_tidy gap rest _ hr]
      exact if_pos hh
    · rw [if_neg hh, if_neg hh, rowsFrom_tidy gap rest row hr]
  | .symbol c rest, row, h => by
    rw [tidy, rowsFrom, rowsFrom, connector_tidy gap rest h, add_unlinked,
      rowsFrom_tidy gap rest _ h]
  | .epsilon c rest, row, h | .optional c _ rest, row, h | .iteration c _ rest, row, h
  | .rerun c _ _ rest, row, h => by
    rw [tidy, rowsFrom, rowsFrom, add_unlinked, rowsFrom_tidy gap rest _ h]
  | .choice branches rest, row, h => by
    rw [tidy, rowsFrom, rowsFrom, head_mapHead, add_unlinked, rowsFrom_tidy gap rest _ h]

theorem rows_tidy (gap : α) {t : Track (Cell α)} (h : (t.map Cell.toSpot).Spaced) :
    t.tidy.rows gap = t.rows gap := rowsFrom_tidy gap t _ h

theorem plain_unlinked (c : Cell α) : stops.plain c.unlinked = stops.plain c := by
  unfold stops.plain Cell.unlinked Node.unlinked
  simp only [Node.link, Option.isSome_map]
  rfl

theorem stops_tidy (gap : α) : ∀ t : Track (Cell α), (t.map Cell.toSpot).Spaced →
    t.tidy.stops gap = t.stops gap
  | .stop, _ => rfl
  | .wrap c rest, ⟨_, _, hr⟩ => by
    rw [tidy, stops]
    split
    · rw [stops, stops_tidy gap rest hr]
    · exact stops_tidy gap rest hr
  | .symbol c rest, h => by
    have hnext : c.unlinked.node.next.isSome = c.node.next.isSome := Option.isSome_map
    rw [tidy, stops, stops, connector_tidy gap rest h, hnext, stops_tidy gap rest h]
    rfl
  | .epsilon c rest, h | .optional c _ rest, h | .iteration c _ rest, h | .rerun c _ _ rest, h => by
    rw [tidy, stops, stops, plain_unlinked, stops_tidy gap rest h]
  | .choice branches rest, h => by
    rw [tidy, stops, stops, head_mapHead, plain_unlinked, stops_tidy gap rest h]

omit [Scalar α] in
theorem held_unlinked (c : Cell α) : c.unlinked.held = c.held := rfl

theorem unlinked_onLine (line : α) (c : Cell α) :
    (c.onLine line).unlinked = c.unlinked.onLine line := rfl

/-- **Placing does not see the wraps that break nothing.** -/
theorem placed_tidy (gap : Size α) : ∀ (t : Track (Cell α)) (top : α) (row : RowExtent α),
    (t.map Cell.toSpot).Spaced → (t.placed gap top row).tidy = t.tidy.placed gap top row
  | .stop, _, _, _ => by rw [placed, tidy, placed]
  | .wrap c rest, top, row, ⟨_, _, hr⟩ => by
    have hplace : (c.mapBox (·.place top (top + row.ascent) (top + c.box.size.height))).box.hasHeight
        = c.box.hasHeight := rfl
    have hblank : c.blank.box.hasHeight = c.box.hasHeight := rfl
    rw [placed, hplace, tidy]
    by_cases hh : c.box.hasHeight = true
    · rw [if_pos hh, if_pos hh, tidy, hplace, if_pos hh, placed_tidy gap rest _ _ hr, placed,
        measure_tidy gap.width hr]
      exact (if_pos hh).symm
    · rw [if_neg hh, if_neg hh, tidy, hplace, if_neg hh, placed_tidy gap rest _ _ hr]
  | .symbol c rest, top, row, h | .epsilon c rest, top, row, h => by
    rw [placed, tidy, tidy, placed, placed_tidy gap rest top row h, unlinked_onLine]
  | .optional c _ rest, top, row, h | .iteration c _ rest, top, row, h
  | .rerun c _ _ rest, top, row, h => by
    rw [placed, tidy, tidy, placed, placed_tidy gap rest top row h]
    rfl
  | .choice (.last c _) rest, top, row, h | .choice (.more c _ _) rest, top, row, h => by
    rw [placed, tidy, tidy, Branches.mapHead, Branches.mapHead, placed,
      placed_tidy gap rest top row h]
    rfl

/-- **The boxes of a page,** but for those of wraps. -/
def boxes (t : Track (Cell α)) : List (NodeId × Box α) := t.toList.filterMap Cell.held

/-- **The boxes are all there without the wraps that break nothing.** -/
theorem boxes_tidy : ∀ t : Track (Cell α), (t.map Cell.toSpot).Spaced → t.tidy.boxes = t.boxes
  | .stop, _ => rfl
  | .wrap c rest, ⟨hk, _, hr⟩ => by
    have hheld : c.held = none := if_pos hk
    have hblank : c.blank.held = none := rfl
    have ih : rest.tidy.toList.filterMap Cell.held = rest.toList.filterMap Cell.held :=
      boxes_tidy rest hr
    rw [boxes, boxes, tidy, toList, List.filterMap_cons_none hheld, ← ih]
    split
    · rw [toList, List.filterMap_cons_none hblank]
    · rfl
  | .symbol c rest, h | .epsilon c rest, h | .optional c _ rest, h | .iteration c _ rest, h
  | .rerun c _ _ rest, h => by
    have ih : rest.tidy.toList.filterMap Cell.held = rest.toList.filterMap Cell.held :=
      boxes_tidy rest h
    simp only [boxes, tidy, toList, List.filterMap_cons, List.filterMap_append, ih, held_unlinked]
  | .choice branches rest, h => by
    have ih : rest.tidy.toList.filterMap Cell.held = rest.toList.filterMap Cell.held :=
      boxes_tidy rest h
    rw [boxes, boxes, tidy, toList, toList, List.filterMap_append, List.filterMap_append, ih]
    cases branches <;>
      simp only [Branches.mapHead, branchList, List.filterMap_cons, held_unlinked]

/-! ## 3. The wraps that are used -/

/-- Before the rows are set no wrap has a height. -/
def Idle : Track (Cell α) → Prop
  | .stop => True
  | .wrap c rest => c.box.hasHeight = false ∧ rest.Idle
  | .symbol _ rest => rest.Idle
  | .epsilon _ rest => rest.Idle
  | .optional _ _ rest => rest.Idle
  | .iteration _ _ rest => rest.Idle
  | .rerun _ _ _ rest => rest.Idle
  | .choice _ rest => rest.Idle

/-- **A page with those wraps only that are used,** and without its links. -/
def breaking (used : NodeId → Bool) : Track (Cell α) → Track (Cell α)
  | .stop => .stop
  | .wrap c rest => if used c.id then .wrap c.blank (rest.breaking used) else rest.breaking used
  | .symbol c rest => .symbol c.unlinked (rest.breaking used)
  | .epsilon c rest => .epsilon c.unlinked (rest.breaking used)
  | .optional c body rest => .optional c.unlinked body (rest.breaking used)
  | .iteration c body rest => .iteration c.unlinked body (rest.breaking used)
  | .rerun c body between rest => .rerun c.unlinked body between (rest.breaking used)
  | .choice branches rest => .choice (branches.mapHead Cell.unlinked) (rest.breaking used)

/-- Without wraps in use nothing but the wraps goes. -/
theorem tidy_eq_breaking : ∀ t : Track (Cell α), t.Idle → t.tidy = t.breaking fun _ => false
  | .stop, _ => rfl
  | .wrap c rest, ⟨hidle, hr⟩ => by
    rw [tidy, breaking, hidle, if_neg Bool.false_ne_true, if_neg Bool.false_ne_true,
      tidy_eq_breaking rest hr]
  | .symbol c rest, h | .epsilon c rest, h | .optional c _ rest, h | .iteration c _ rest, h
  | .rerun c _ _ rest, h | .choice _ rest, h => by
    rw [tidy, breaking, tidy_eq_breaking rest h]

theorem higher_unlinked (row : RowExtent α) (c : Cell α) :
    frozenFrom.higher row c.unlinked = frozenFrom.higher row c := rfl

omit [Scalar α] in
theorem unlinked_onPage_unlinked (c : Cell α) :
    (frozenFrom.onPage c.unlinked).unlinked = (frozenFrom.onPage c).unlinked := by
  have hnext (next : Option NodeId) :
      (next.map fun _ => 0).map (fun _ => 0) = next.map fun _ => 0 := by
    cases next <;> rfl
  unfold Cell.unlinked frozenFrom.onPage Cell.mapBox Node.unlinked
  simp only [Node.link, hnext]

/-- **Setting the rows does not see the wraps that are not used.** -/
theorem frozenFrom_tidy (used : NodeId → Bool) : ∀ (t : Track (Cell α)) (row : RowExtent α),
    t.Idle → (t.frozenFrom used row).tidy = ((t.breaking used).frozenFrom (fun _ => true) row).tidy
  | .stop, _, _ => rfl
  | .wrap c rest, row, ⟨hidle, hr⟩ => by
    have hpage : (frozenFrom.onPage c).box.hasHeight = false := hidle
    by_cases hu : used c.id = true
    · rw [breaking, if_pos hu, frozenFrom, frozenFrom]
      by_cases hrow : lt 0.0 row.height = true
      · have hcond : (used (frozenFrom.onPage c).id && lt 0.0 row.height) = true :=
          (Bool.and_eq_true _ _).mpr ⟨hu, hrow⟩
        have hcond' : (true && lt 0.0 row.height) = true := hrow
        rw [if_pos hcond, if_pos hcond', tidy, tidy, frozenFrom_tidy used rest _ hr]
        rfl
      · have hcond : ¬(used (frozenFrom.onPage c).id && lt 0.0 row.height) = true :=
          fun h => hrow ((Bool.and_eq_true _ _).mp h).2
        have hcond' : ¬(true && lt 0.0 row.height) = true := hrow
        have hblank : (frozenFrom.onPage c.blank).box.hasHeight = false := hidle
        rw [if_neg hcond, if_neg hcond', tidy, tidy, hpage, hblank, frozenFrom_tidy used rest _ hr]
        rfl
    · have hcond : ¬(used (frozenFrom.onPage c).id && lt 0.0 row.height) = true :=
        fun h => hu ((Bool.and_eq_true _ _).mp h).1
      rw [breaking, if_neg hu, frozenFrom, if_neg hcond, tidy, hpage, frozenFrom_tidy used rest _ hr]
      rfl
  | .symbol c rest, row, h | .epsilon c rest, row, h | .optional c _ rest, row, h
  | .iteration c _ rest, row, h | .rerun c _ _ rest, row, h => by
    rw [frozenFrom, tidy, breaking, frozenFrom, tidy, higher_unlinked, unlinked_onPage_unlinked,
      frozenFrom_tidy used rest _ h]
  | .choice branches rest, row, h => by
    rw [frozenFrom, tidy, breaking, frozenFrom, tidy, head_mapHead, higher_unlinked,
      frozenFrom_tidy used rest _ h]
    cases branches <;> simp only [Branches.mapHead, unlinked_onPage_unlinked]

theorem frozen_tidy (used : NodeId → Bool) {t : Track (Cell α)} (h : t.Idle) :
    (t.frozen used).tidy = ((t.breaking used).frozen fun _ => true).tidy :=
  frozenFrom_tidy used t _ h

end Track

end Railroad
