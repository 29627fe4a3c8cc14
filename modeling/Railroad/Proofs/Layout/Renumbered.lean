/-
# Layouts under other numbers

A layout looks at the kinds, the links and the labels of the nodes.  So it gives alike graphs the
same boxes, the same rows and the same page, if their rulers give the same symbols labels of the same
size (`Graph.Alike.layout`).  Only the serial number in a geometry error tells the graphs apart.

Each pass commutes with `Cell.renumber`, and the proofs are one equation for each kind of node.
Since a ruler measures nodes and not symbols, the two rulers are asked to agree on the nodes under
their numbers (`Ruler.Agrees`); those of two grammars do as soon as their tables have the same
names.
-/
import Railroad.Proofs.Graph.Items
import Railroad.Proofs.Graph.Renumbered
import Railroad.Proofs.Layout.History

namespace Railroad

open Scalar

variable {α : Type} [Scalar α] (σ : SymbolId → SymbolId)

/-! ## 1. Cells and rows -/

namespace Cell

omit [Scalar α]

/-- The cell of the node with other numbers. -/
def renumber (c : Cell α) : Cell α := { c with node := c.node.renumber σ }


@[simp] theorem mapBox_renumber (c : Cell α) (change : Box α → Box α) :
    (c.renumber σ).mapBox change = (c.mapBox change).renumber σ := rfl

end Cell

namespace Track

@[simp] theorem add_renumber (row : RowExtent α) (connector : α) (c : Cell α) :
    row.add connector (c.renumber σ) = row.add connector c := rfl

theorem connects_renumber (t : Track (Cell α)) :
    (t.map (·.renumber σ)).connects Cell.breaks = t.connects Cell.breaks := by
  cases t with
  | wrap c rest => cases rest <;> rfl
  | _ => rfl

theorem connector_renumber (gap : α) (t : Track (Cell α)) :
    (t.map (·.renumber σ)).connector gap = t.connector gap := by
  rw [connector, connector, connects_renumber]

theorem measureFrom_renumber (gap : α) : ∀ (t : Track (Cell α)) (row : RowExtent α),
    (t.map (·.renumber σ)).measureFrom gap row = t.measureFrom gap row
  | .stop, _ => rfl
  | .wrap c rest, row => by
    rw [map, measureFrom, measureFrom, measureFrom_renumber gap rest]
    rfl
  | .symbol c rest, row => by
    rw [map, measureFrom, measureFrom, connector_renumber, add_renumber,
      measureFrom_renumber gap rest]
  | .epsilon c rest, row | .optional c _ rest, row | .iteration c _ rest, row
  | .rerun c _ _ rest, row => by
    rw [map, measureFrom, measureFrom, add_renumber, measureFrom_renumber gap rest]
  | .choice branches rest, row => by
    rw [map, measureFrom, measureFrom, head_mapBranches, add_renumber,
      measureFrom_renumber gap rest]

theorem measure_renumber (gap : α) (t : Track (Cell α)) :
    (t.map (·.renumber σ)).measure gap = t.measure gap := measureFrom_renumber σ gap t _

theorem rowsFrom_renumber (gap : α) : ∀ (t : Track (Cell α)) (row : RowExtent α),
    (t.map (·.renumber σ)).rowsFrom gap row = t.rowsFrom gap row
  | .stop, _ => rfl
  | .wrap c rest, row => by
    rw [map, rowsFrom, rowsFrom, rowsFrom_renumber gap rest, rowsFrom_renumber gap rest]
    rfl
  | .symbol c rest, row => by
    rw [map, rowsFrom, rowsFrom, connector_renumber, add_renumber, rowsFrom_renumber gap rest]
  | .epsilon c rest, row | .optional c _ rest, row | .iteration c _ rest, row
  | .rerun c _ _ rest, row => by
    rw [map, rowsFrom, rowsFrom, add_renumber, rowsFrom_renumber gap rest]
  | .choice branches rest, row => by
    rw [map, rowsFrom, rowsFrom, head_mapBranches, add_renumber, rowsFrom_renumber gap rest]

theorem rows_renumber (gap : α) (t : Track (Cell α)) :
    (t.map (·.renumber σ)).rows gap = t.rows gap := rowsFrom_renumber σ gap t _

theorem stops_renumber (gap : α) : ∀ t : Track (Cell α),
    (t.map (·.renumber σ)).stops gap = t.stops gap
  | .stop => rfl
  | .wrap c rest => by rw [map, stops, stops, stops_renumber gap rest]
  | .symbol c rest => by
    rw [map, stops, stops, connector_renumber, stops_renumber gap rest]
    rfl
  | .epsilon c rest | .optional c _ rest | .iteration c _ rest | .rerun c _ _ rest => by
    rw [map, stops, stops, stops_renumber gap rest]
    rfl
  | .choice branches rest => by
    rw [map, stops, stops, head_mapBranches, stops_renumber gap rest]
    rfl

/-! ## 2. Sizes and places -/

omit [Scalar α] in
theorem mapMarks_renumber (change : Box α → Box α) : ∀ bs : Branches (Cell α),
    (mapBranches (·.renumber σ) bs).mapMarks (·.mapBox change)
      = mapBranches (·.renumber σ) (bs.mapMarks (·.mapBox change))
  | .last _ _ => rfl
  | .more _ _ others => by
    simp only [mapBranches, Branches.mapMarks, mapMarks_renumber change others, Cell.mapBox_renumber]

omit [Scalar α] in
theorem sizes_renumber (bs : Branches (Cell α)) :
    (mapBranches (·.renumber σ) bs).marks.map (·.box.size) = bs.marks.map (·.box.size) := by
  rw [marks_mapBranches, List.map_map]
  rfl

end Track

/-- **Another ruler says the same** of the nodes with other numbers.  A ruler that measures the text
of labels does so, if both tables have the same text. -/
structure Ruler.Agrees (r other : Ruler α) : Prop where
  settings : other.settings = r.settings
  label : ∀ node, other.label (node.renumber σ) = r.label node

theorem Ruler.agrees_ofSymbols [Shaping α] {settings : LayoutSettings α} {t other : SymbolTable}
    (h : t.Agrees σ other) : Agrees σ (ofSymbols settings t) (ofSymbols settings other) where
  settings := rfl
  label node := by
    have hname := Node.name_renumber h node
    unfold Node.name at hname
    simp only [ofSymbols, Node.style_renumber, hname]

namespace Track

section

variable {σ} {r other : Ruler α} (h : Ruler.Agrees σ r other)

include h

mutual

/-- **Sizes do not depend on the numbers.** -/
theorem sized_renumber : ∀ t : Track Spot,
    (t.map (·.renumber σ)).sized other = (t.sized r).map (·.renumber σ)
  | .stop => rfl
  | .symbol b rest => by
    have hbox : other.symbolBox (b.node.renumber σ) = r.symbolBox b.node := by
      simp only [Ruler.symbolBox, h.settings, h.label, Node.kind_renumber]
    simp only [map, sized, sized_renumber rest, Spot.node_renumber, hbox]
    rfl
  | .epsilon b rest => by
    simp only [map, sized, sized_renumber rest, Ruler.epsilonBox, h.settings]
    rfl
  | .wrap b rest => by
    simp only [map, sized, sized_renumber rest]
    rfl
  | .optional b body rest => by
    simp only [map, sized, sized_renumber rest, sized_renumber body, Ruler.optionalBox, h.settings,
      measure_renumber]
    rfl
  | .iteration b body rest => by
    simp only [map, sized, sized_renumber rest, sized_renumber body, Ruler.iterationBox, h.settings,
      measure_renumber]
    rfl
  | .rerun b body between rest => by
    simp only [map, sized, sized_renumber rest, sized_renumber body, sized_renumber between,
      Ruler.rerunBox, h.settings, measure_renumber, isStop_map]
    rfl
  | .choice branches rest => by
    simp only [map, sized, sized_renumber rest, sizedBranches_renumber branches, Ruler.groupSize,
      h.settings, sizes_renumber, mapMarks_renumber]

theorem sizedBranches_renumber : ∀ bs : Branches Spot,
    sizedBranches other (mapBranches (·.renumber σ) bs)
      = mapBranches (·.renumber σ) (sizedBranches r bs)
  | .last b body => by
    simp only [mapBranches, sizedBranches, sized_renumber body, h.settings, measure_renumber]
    rfl
  | .more b body others => by
    simp only [mapBranches, sizedBranches, sized_renumber body, h.settings, measure_renumber,
      sizedBranches_renumber others]
    rfl

end

end

theorem frozenFrom_renumber (used : NodeId → Bool) : ∀ (t : Track (Cell α)) (row : RowExtent α),
    (t.map (·.renumber σ)).frozenFrom used row = (t.frozenFrom used row).map (·.renumber σ)
  | .stop, _ => rfl
  | .wrap c rest, row => by
    simp only [map, frozenFrom, frozenFrom_renumber used rest, apply_ite (map (Cell.renumber σ ·))]
    rfl
  | .symbol c rest, row | .epsilon c rest, row => by
    simp only [map, frozenFrom, frozenFrom_renumber used rest]
    rfl
  | .optional c body rest, row | .iteration c body rest, row | .rerun c body _ rest, row => by
    simp only [map, frozenFrom, frozenFrom_renumber used rest]
    rfl
  | .choice branches rest, row => by
    simp only [map, frozenFrom, frozenFrom_renumber used rest, head_mapBranches]
    cases branches <;> rfl

theorem frozen_renumber (used : NodeId → Bool) (t : Track (Cell α)) :
    (t.map (·.renumber σ)).frozen used = (t.frozen used).map (·.renumber σ) :=
  frozenFrom_renumber σ used t _

mutual

/-- **Nor do places.** -/
theorem placed_renumber (gap : Size α) : ∀ (t : Track (Cell α)) (top : α) (row : RowExtent α),
    (t.map (·.renumber σ)).placed gap top row = (t.placed gap top row).map (·.renumber σ)
  | .stop, _, _ => by rw [map, placed, map]
  | .wrap c rest, top, row => by
    simp only [map, placed, placed_renumber gap rest, measure_renumber,
      apply_ite (map (Cell.renumber σ ·))]
    rfl
  | .symbol c rest, top, row | .epsilon c rest, top, row => by
    simp only [map, placed, placed_renumber gap rest]
    rfl
  | .optional c body rest, top, row | .iteration c body rest, top, row => by
    simp only [map, placed, placed_renumber gap rest, placed_renumber gap body, measure_renumber]
    rfl
  | .rerun c body between rest, top, row => by
    simp only [map, placed, placed_renumber gap rest, placed_renumber gap body,
      placed_renumber gap between, measure_renumber]
    rfl
  | .choice (.last c body) rest, top, row => by
    simp only [map, mapBranches, placed, placed_renumber gap rest, placed_renumber gap body,
      measure_renumber]
    rfl
  | .choice (.more c body others) rest, top, row => by
    simp only [map, mapBranches, placed, placed_renumber gap rest, placed_renumber gap body,
      placedBranches_renumber gap others, measure_renumber]
    rfl

theorem placedBranches_renumber (gap : Size α) : ∀ (bs : Branches (Cell α)) (top : α),
    placedBranches gap top (mapBranches (·.renumber σ) bs)
      = mapBranches (·.renumber σ) (placedBranches gap top bs)
  | .last c body, top => by
    simp only [mapBranches, placedBranches, placed_renumber gap body, measure_renumber]
    rfl
  | .more c body others, top => by
    simp only [mapBranches, placedBranches, placed_renumber gap body, measure_renumber,
      placedBranches_renumber gap others]
    rfl

end

end Track

/-! ## 3. Layouts -/

/-- An error without the serial number of its node. -/
def GeometryError.unnumbered (e : GeometryError α) : GeometryError α := { e with serial := 0 }

/-- The layout of the graph with other numbers. -/
def Layout.renumber (l : Layout α) : Layout α := { l with track := l.track.map (·.renumber σ) }

/-- The first error in some cells. -/
def Cell.firstError? (cells : List (Cell α)) : Option (GeometryError α) :=
  cells.findSome? fun c => c.misfit?.map (GeometryError.mk c.node.serial c.node.kind)

theorem Cell.firstError?_renumber (cells : List (Cell α)) :
    firstError? (cells.map (·.renumber σ)) = (firstError? cells).map (·.unnumbered) := by
  unfold firstError?
  rw [List.findSome?_map, List.map_findSome?]
  congr 1
  funext c
  show c.misfit?.map (GeometryError.mk 0 c.node.kind) = Option.map _ (Option.map _ c.misfit?)
  rw [Option.map_map]
  rfl

namespace Graph

theorem cells_renumber (g : Graph) (t : Track (Cell α)) :
    (g.renumber σ).cells (t.map (·.renumber σ)) = (g.cells t).map (·.renumber σ) := by
  have hboxes (boxes : Array (Box α)) (cells : List (Cell α)) :
      (cells.map (·.renumber σ)).foldl (fun boxes c => boxes.setIfInBounds c.id c.box) boxes
        = cells.foldl (fun boxes c => boxes.setIfInBounds c.id c.box) boxes :=
    List.foldl_map
  unfold cells
  rw [Track.toList_map, nodes_size_renumber, hboxes, List.map_filterMap]
  refine List.filterMap_congr fun id _ => ?_
  rw [getElem?_renumber]
  cases g.nodes[id]? with
  | none => rfl
  | some node =>
    simp only [Option.map_some, Option.bind_eq_bind, Option.bind_some, Option.map_bind]
    rfl

/-- What comes of a layout, once the graph has its wraps and it is known which of them to use. -/
def layoutWith (g : Graph) (r : Ruler α) (used : List NodeId) :
    Except (GeometryError α) (Layout α) :=
  match Cell.firstError? (g.cells (g.arrange r used).1) with
  | some e => .error e
  | none =>
    .ok
      { track := (g.arrange r used).1
        rows := (g.arrange r used).2
        content := (r.settings.page (g.arrange r used).2).1
        size := (r.settings.page (g.arrange r used).2).2 }

theorem layout_fst (g : Graph) (r : Ruler α) :
    (g.layout r).1 = (g.breakRows r).1.layoutWith r (g.breakRows r).2 := by
  unfold layout layoutWith
  cases hfirst : Cell.firstError?
      ((g.breakRows r).1.cells ((g.breakRows r).1.arrange r (g.breakRows r).2).1) <;>
    unfold Cell.firstError? at hfirst <;> simp only [hfirst]

section

variable {σ} {r other : Ruler α} (h : Ruler.Agrees σ r other)

include h

theorem rowBreaks_renumber (g : Graph) : (g.renumber σ).rowBreaks other = g.rowBreaks r := by
  unfold rowBreaks
  rw [h.settings, track_renumber, Track.sized_renumber h]
  simp only [Track.stops_renumber]

theorem arrange_renumber (g : Graph) (used : List NodeId) :
    (g.renumber σ).arrange other used
      = ((g.arrange r used).1.map (·.renumber σ), (g.arrange r used).2) := by
  rw [arrange_eq, arrange_eq]
  simp only [h.settings, track_renumber, Track.sized_renumber h, Track.frozen_renumber,
    Track.measure_renumber, Track.placed_renumber, Track.rows_renumber]

theorem layoutWith_renumber (g : Graph) (used : List NodeId) :
    (g.renumber σ).layoutWith other used
      = ((g.layoutWith r used).map (·.renumber σ)).mapError (·.unnumbered) := by
  unfold layoutWith
  rw [arrange_renumber h, cells_renumber, Cell.firstError?_renumber, h.settings]
  cases Cell.firstError? (g.cells (g.arrange r used).1) with
  | some e => rfl
  | none => rfl

end

/-- **Alike graphs are laid out alike:** the graphs with the wraps are alike, and the pages differ
in the numbers only.  If there is none, the errors do. -/
theorem Alike.layout {σ σ' : SymbolId → SymbolId} {g g' : Graph} {r r' other : Ruler α}
    (h : Alike σ σ' g g') (hr : Ruler.Agrees σ r other) (hr' : Ruler.Agrees σ' r' other) :
    Alike σ σ' (g.layout r).2 (g'.layout r').2 ∧
      ((g.layout r).1.map (·.renumber σ)).mapError (·.unnumbered)
        = ((g'.layout r').1.map (·.renumber σ')).mapError (·.unnumbered) := by
  have hbreaks : g.rowBreaks r = g'.rowBreaks r' := by
    rw [← rowBreaks_renumber hr, h, rowBreaks_renumber hr']
  obtain ⟨halike, hused⟩ := h.breakAfterAll (g.rowBreaks r)
  rw [hbreaks] at halike hused
  have hbroken : g.breakRows r = g.breakAfterAll (g'.rowBreaks r') := by
    rw [breakRows_eq, hbreaks]
  rw [layout_snd, layout_snd, layout_fst, layout_fst, hbroken, breakRows_eq g', hused]
  refine ⟨halike, ?_⟩
  rw [← layoutWith_renumber hr, ← layoutWith_renumber hr', halike]

end Graph

end Railroad
