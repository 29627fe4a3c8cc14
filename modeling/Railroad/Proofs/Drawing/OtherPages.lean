/-
# The same graph on another page

The width of the page and its margins have no part in the size of a node.  Sizes are found before the
page is broken into rows (`Track.sized_withPage`), and what follows, setting the rows and placing the
nodes, keeps the sizes of all nodes but wraps (`Track.dimensions_frozen`, `Track.dimensions_placed`).
A wrap that breaks a row has a height, but it stands on the top level and so inside no node, and it
takes no part in the sizes of any.

So a graph has the same nodes in the same sizes on every page, and they are read in the same order
(`layout_otherPage`).  A page that is wide enough for every running sum is as good as one without a
width.

Nothing about numbers is used for the first two of the three statements, which so hold of floats as
they are.  The third needs that the running sums are compared with the limit one by one, as the
search for an overflow does.
-/
import Mathlib
import Railroad.Proofs.Drawing.ReadingOrder
import Railroad.Proofs.Layout.RowPolicy

namespace Railroad

open Scalar

variable {α : Type}

/-! ## 1. Sizes before the rows are set -/

/-- The settings for another page: only its width and its margins are changed. -/
def LayoutSettings.withPage (s : LayoutSettings α) (pageWidth : Option α) (margin : Insets α) :
    LayoutSettings α :=
  { s with pageWidth, margin }

/-- The ruler for another page. -/
def Ruler.withPage (r : Ruler α) (pageWidth : Option α) (margin : Insets α) : Ruler α :=
  { r with settings := r.settings.withPage pageWidth margin }

variable [Scalar α]

theorem Ruler.ofSymbols_withPage [Shaping α] (s : LayoutSettings α) (symbols : SymbolTable)
    (pageWidth : Option α) (margin : Insets α) :
    ofSymbols (s.withPage pageWidth margin) symbols = (ofSymbols s symbols).withPage pageWidth margin :=
  rfl

namespace Track

mutual

/-- **Sizes do not depend on the page.** -/
theorem sized_withPage (r : Ruler α) (pageWidth : Option α) (margin : Insets α) :
    ∀ t : Track Spot, t.sized (r.withPage pageWidth margin) = t.sized r
  | .stop => rfl
  | .wrap b rest => by rw [sized, sized, sized_withPage r pageWidth margin rest]
  | .symbol b rest | .epsilon b rest => by
    rw [sized, sized, sized_withPage r pageWidth margin rest]
    rfl
  | .optional b body rest | .iteration b body rest => by
    rw [sized, sized, sized_withPage r pageWidth margin body, sized_withPage r pageWidth margin rest]
    rfl
  | .rerun b body between rest => by
    rw [sized, sized, sized_withPage r pageWidth margin body,
      sized_withPage r pageWidth margin between, sized_withPage r pageWidth margin rest]
    rfl
  | .choice branches rest => by
    rw [sized, sized, sizedBranches_withPage r pageWidth margin branches,
      sized_withPage r pageWidth margin rest]
    rfl

theorem sizedBranches_withPage (r : Ruler α) (pageWidth : Option α) (margin : Insets α) :
    ∀ bs : Branches Spot, sizedBranches (r.withPage pageWidth margin) bs = sizedBranches r bs
  | .last b body => by
    rw [sizedBranches, sizedBranches, sized_withPage r pageWidth margin body]
    rfl
  | .more b body others => by
    rw [sizedBranches, sizedBranches, sized_withPage r pageWidth margin body,
      sizedBranches_withPage r pageWidth margin others]
    rfl

end

end Track

/-! ## 2. Sizes on the page -/

/-- The box without its place on the page. -/
def Box.dimensions (b : Box α) : Box α := { b.place 0.0 0.0 0.0 with onPage := false }

theorem Box.sameSize_iff {a b : Box α} : a.SameSize b ↔ a.dimensions = b.dimensions := by
  obtain ⟨_, _, _, _, _, _, _, _⟩ := a
  obtain ⟨_, _, _, _, _, _, _, _⟩ := b
  constructor
  · rintro ⟨rfl, rfl, rfl, rfl⟩
    rfl
  · intro h
    simp only [dimensions, place, Box.mk.injEq, and_true] at h
    obtain ⟨rfl, rfl, rfl, rfl⟩ := h
    exact ⟨rfl, rfl, rfl, rfl⟩

/-- The place of a node in the array and the size of its box, unless it is a wrap. -/
def Cell.dimensions (c : Cell α) : Option (NodeId × Box α) :=
  c.held.map (Prod.map id Box.dimensions)

namespace Track

/-- **The sizes of the nodes of a page,** but for those of wraps.  Wraps are left out because
another page may have others. -/
def dimensions (t : Track (Cell α)) : List (NodeId × Box α) := t.toList.filterMap Cell.dimensions

theorem dimensions_eq (t : Track (Cell α)) :
    t.dimensions = t.boxes.map (Prod.map id Box.dimensions) :=
  List.map_filterMap.symm

theorem dimensions_of_map_eq {t t' : Track (Cell α)}
    (h : t.map Cell.dimensions = t'.map Cell.dimensions) : t.dimensions = t'.dimensions := by
  have hlist := congrArg (fun t : Track (Option (NodeId × Box α)) => t.toList.filterMap id) h
  simpa only [toList_map, List.filterMap_map, Function.id_comp, dimensions] using hlist

/-- What a function sees of cells stays when the rows are set, if it sees neither the heights of wraps
nor which nodes are those of the page. -/
theorem map_frozenFrom {γ : Type} {f : Cell α → γ} (hpage : ∀ c, f (frozenFrom.onPage c) = f c)
    (hwrap : ∀ (c : Cell α) (size : Size α), c.node.kind = .wrap →
      f (c.mapBox ({ · with size })) = f c) (used : NodeId → Bool) :
    ∀ (t : Track (Cell α)) (row : RowExtent α), (t.map Cell.toSpot).Spaced →
    (t.frozenFrom used row).map f = t.map f
  | .stop, _, _ => rfl
  | .wrap c rest, row, ⟨hk, _, hr⟩ => by
    rw [frozenFrom]
    split
    · rw [map, map, map_frozenFrom hpage hwrap used rest _ hr,
        hwrap (frozenFrom.onPage c) _ hk, hpage]
    · rw [map, map, map_frozenFrom hpage hwrap used rest _ hr, hpage]
  | .symbol c rest, row, h | .epsilon c rest, row, h | .optional c _ rest, row, h
  | .iteration c _ rest, row, h | .rerun c _ _ rest, row, h => by
    rw [frozenFrom, map, map, map_frozenFrom hpage hwrap used rest _ h, hpage]
  | .choice branches rest, row, h => by
    rw [frozenFrom, map, map, map_frozenFrom hpage hwrap used rest _ h]
    cases branches <;> rw [Branches.mapHead, mapBranches, mapBranches, hpage]

/-- **Setting the rows keeps the sizes.** -/
theorem dimensions_frozen (used : NodeId → Bool) {t : Track (Cell α)}
    (h : (t.map Cell.toSpot).Spaced) : (t.frozen used).dimensions = t.dimensions := by
  refine dimensions_of_map_eq (map_frozenFrom (fun c => ?_) (fun c size hk => ?_) used t _ h)
  · unfold Cell.dimensions Cell.held frozenFrom.onPage Cell.mapBox
    split <;> rfl
  · unfold Cell.dimensions Cell.held Cell.mapBox
    rw [if_pos hk, if_pos hk]

/-- **Placing the nodes keeps the sizes.** -/
theorem dimensions_placed (gap : Size α) (t : Track (Cell α)) (top : α) (row : RowExtent α) :
    (t.placed gap top row).dimensions = t.dimensions := by
  refine dimensions_of_map_eq (map_placed (fun c top line bottom => ?_) gap t top row)
  unfold Cell.dimensions Cell.held Cell.mapBox
  split <;> rfl

end Track

namespace Wrapped

variable {g₀ g : Graph} {t₀ : Track NodeId} {w : NodeId → Option NodeId} {r : Ruler α}

/-- **The sizes of a layout** are those of the compiled graph before any row is set. -/
theorem dimensions_arranged (hbare : g₀.Bare t₀) (h : Wrapped g₀ t₀ g w) (hr : r.Local)
    (hzero : lt (0.0 : α) 0.0 = false) :
    (g.arranged r).1.dimensions = (g₀.pageWith t₀ r fun _ => false).dimensions := by
  obtain ⟨w', h'⟩ := h.exists_breakRows hbare r
  have hspaced := h'.spaced_sized hbare r
  rw [Graph.arranged, Graph.arrange_eq, Track.dimensions_placed, Track.dimensions_frozen _ hspaced,
    Track.dimensions_eq, ← Track.boxes_tidy _ hspaced, h'.tidy_sized hbare hr hzero,
    ← Track.dimensions_eq]

/-- **A compiled node has the same size on every page.** -/
theorem exists_sameSize (hbare : g₀.Bare t₀) (h : Wrapped g₀ t₀ g w) (hr : r.Local)
    (hzero : lt (0.0 : α) 0.0 = false) (pageWidth pageWidth' : Option α) (margin margin' : Insets α)
    {id : NodeId} (hid : id < g₀.nodes.size) :
    ∃ c c', (g.laidOut (r.withPage pageWidth margin))[id]? = some c ∧
      (g.laidOut (r.withPage pageWidth' margin'))[id]? = some c' ∧ c'.box.SameSize c.box := by
  obtain ⟨node, hn⟩ := hbare.node_of_mem ((hbare.mem_iff id).mpr hid)
  set r₁ := r.withPage pageWidth margin
  set r₂ := r.withPage pageWidth' margin'
  obtain ⟨w₁, h₁⟩ := h.exists_breakRows hbare r₁
  obtain ⟨w₂, h₂⟩ := h.exists_breakRows hbare r₂
  have hsizes : (g.arranged r₂).1.dimensions = (g.arranged r₁).1.dimensions := by
    rw [h.dimensions_arranged hbare (r := r₁) hr hzero,
      h.dimensions_arranged hbare (r := r₂) hr hzero, Graph.pageWith, Graph.pageWith,
      Track.sized_withPage, Track.sized_withPage]
  obtain ⟨c, hc, -⟩ := h₁.exists_cell hbare (g.spots_arranged r₁) hn
  have hmem : (id, c.box.dimensions) ∈ (g.arranged r₁).1.dimensions := by
    rw [Track.dimensions_eq]
    exact List.mem_map_of_mem ((h₁.mem_boxes_iff hbare (g.spots_arranged r₁) hn).mpr ⟨c, hc, rfl⟩)
  rw [← hsizes, Track.dimensions_eq] at hmem
  obtain ⟨⟨place, box⟩, hbox, hsame⟩ := List.mem_map.mp hmem
  obtain rfl : place = id := congrArg Prod.fst hsame
  obtain ⟨c', hc', rfl⟩ := (h₂.mem_boxes_iff hbare (g.spots_arranged r₂) hn).mp hbox
  exact ⟨c, c', hc, hc', Box.sameSize_iff.mpr (congrArg Prod.snd hsame)⟩

/-! ## 3. What is read on the page -/

/-- **What is drawn of a graph** is what there is to read in the compiled one. -/
theorem glyphs_arranged (hbare : g₀.Bare t₀) (h : Wrapped g₀ t₀ g w) (r : Ruler α)
    (symbols : SymbolTable) {cv : Canvas α} (hcv : cv.label = Node.name symbols) :
    (cv.page (g.arranged r).1).filterMap Primitive.glyph?
      = ((g₀.levels.map fun spot => spot.node.name symbols).readings 0).flatMap
          (fun (label, ways) => Glyph.ofReading label ways) ++ [.arrow .forward] := by
  rw [(cv.glyphs_page (h.laidOut hbare r)).1, ← h.readings_arranged hbare r symbols,
    Track.readings_map, List.flatMap_map, Canvas.glyphs, hcv]
  rfl

end Wrapped

/-! ## 4. Pages that are wide enough -/

/-- A row that fits is not broken. -/
theorem Stop.breaks_eq_nil {limit : α} {stops : List (Stop α)}
    (h : ∀ k < stops.length, FitsTo limit stops k) : breaks limit stops = [] := by
  cases stops with
  | nil => rw [breaks]
  | cons stop stops =>
    have hnone : overflow? limit 0.0 (stop :: stops) = none := by
      by_contra hsome
      obtain ⟨i, hi⟩ := Option.ne_none_iff_exists'.mp hsome
      exact (overflow?_eq_some hi).exceeds (h i (overflow?_eq_some hi).lt_length)
    rw [breaks, rowEnd?, hnone]
    rfl

namespace Graph

variable {g : Graph} {r : Ruler α} {limit : α}

/-- **A page that is wide enough is like one without a width.** -/
theorem layout_of_fits (margin : Insets α)
    (h : ∀ k < ((g.track.sized r).stops r.settings.componentGap.width).length,
      Stop.FitsTo limit ((g.track.sized r).stops r.settings.componentGap.width) k) :
    g.layout (r.withPage (some limit) margin) = g.layout (r.withPage none margin) ∧
      g.laidOut (r.withPage (some limit) margin) = g.laidOut (r.withPage none margin) := by
  have hrows : g.breakRows (r.withPage (some limit) margin)
      = g.breakRows (r.withPage none margin) := by
    have hbreaks := Stop.breaks_eq_nil h
    rw [← Track.sized_withPage r (some limit) margin] at hbreaks
    rw [breakRows_eq, breakRows_eq]
    exact congrArg g.breakAfterAll hbreaks
  have harrange (g : Graph) (used : List NodeId) : g.arrange (r.withPage (some limit) margin) used
      = g.arrange (r.withPage none margin) used := by
    rw [arrange_eq, arrange_eq, Track.sized_withPage, Track.sized_withPage]
    rfl
  constructor
  · rw [layout, layout, hrows]
    simp only [harrange]
    rfl
  · rw [laidOut, laidOut, arranged, arranged, hrows, harrange]

end Graph

/-! ## 5. Layouts of compiled graphs -/

/-- **The page moves nodes but does not resize them.**  A compiled graph, after any layouts, is laid
out with settings that differ in the width of the page and in its margins only:

* the compiled nodes have boxes of the same size, with their track at the same place in them, even
  if one of the layouts is an error;
* the same boxes, labels and arrow heads are drawn, in the same order;
* if the margins are the same too, one page has no width and every running sum over the nodes of
  the top level is at most the width of the other, the layouts are the same, or the same error, and
  so are all boxes and the graphs that are left.

Sizes are found before and again after the rows are, and the second time makes no difference
(`Track.resized_frozen`); that is what keeps the width of the page out of them. -/
theorem layout_otherPage [Shaping Float32] {registry : Build.Registry} {collapsing : Bool}
    {p : Production} {g : Graph} (h : (Build.compile registry collapsing p).1 = .ok g)
    (rulers : List (Ruler Float32)) (settings : LayoutSettings Float32) (symbols : SymbolTable)
    (pageWidth pageWidth' : Option Float32) (margin margin' : Insets Float32) :
    let s := settings.withPage pageWidth margin
    let s' := settings.withPage pageWidth' margin'
    let r := Ruler.ofSymbols s symbols
    let r' := Ruler.ofSymbols s' symbols
    let g' := g.afterLayouts rulers
    let stops := (g'.track.sized r).stops settings.componentGap.width
    (∀ id < g.nodes.size, ∃ c c', (g'.laidOut r)[id]? = some c ∧ (g'.laidOut r')[id]? = some c' ∧
      c'.box.SameSize c.box) ∧
    (∀ chart colors,
      (Canvas.page ⟨s', chart, Node.name symbols, colors⟩ (g'.arranged r').1).filterMap
          Primitive.glyph?
        = (Canvas.page ⟨s, chart, Node.name symbols, colors⟩ (g'.arranged r).1).filterMap
          Primitive.glyph?) ∧
    (margin' = margin → pageWidth = none → ∀ limit, pageWidth' = some limit →
      (∀ k < stops.length, Stop.FitsTo limit stops k) →
      g'.layout r' = g'.layout r ∧ g'.laidOut r' = g'.laidOut r) := by
  intro s s' r r' g' stops
  have hzero : lt (0.0 : Float32) 0.0 = false := by decide
  have hr : (Ruler.ofSymbols settings symbols).Local := Ruler.local_ofSymbols settings symbols
  obtain ⟨t, hbare⟩ := Build.bare_of_compile h
  obtain ⟨w, hwrapped⟩ := (Wrapped.refl g t).afterLayouts hbare rulers
  refine ⟨fun id hid => ?_, fun chart colors => ?_, ?_⟩
  · exact hwrapped.exists_sameSize hbare hr hzero pageWidth pageWidth' margin margin' hid
  · rw [hwrapped.glyphs_arranged hbare r' symbols rfl, hwrapped.glyphs_arranged hbare r symbols rfl]
  · rintro rfl rfl limit rfl hfits
    have hstops : stops = (g'.track.sized (.ofSymbols settings symbols)).stops
        settings.componentGap.width := by
      rw [← Track.sized_withPage (.ofSymbols settings symbols) none margin', ← Ruler.ofSymbols_withPage]
    rw [hstops] at hfits
    exact Graph.layout_of_fits (r := .ofSymbols settings symbols) margin' hfits

/-- On a narrow page two words make two rows; they are as large as in one row, and a page that is wide
enough for both does not break it, in spite of the wrap that the narrow one has left. -/
theorem layout_otherPage_twoWords : (Build.compile {} true twoWords).1 = .ok twoWordsGraph ∧
    twoWordsGraph.rowBreaks (twoWordsRuler (some 40.0)) = [0] ∧
    let g' := twoWordsGraph.afterLayouts [twoWordsRuler (some 40.0)]
    (∀ id < 2, ∃ c c', (g'.laidOut (twoWordsRuler none))[id]? = some c ∧
      (g'.laidOut (twoWordsRuler (some 40.0)))[id]? = some c' ∧ c'.box.SameSize c.box) ∧
    g'.layout (twoWordsRuler (some 1000.0)) = g'.layout (twoWordsRuler none) := by
  have hg : (Build.compile {} true twoWords).1 = .ok twoWordsGraph := by cbv
  have hleft : twoWordsGraph.afterLayouts [twoWordsRuler (some 40.0)]
      = (twoWordsGraph.breakAfterAll [0]).1 := by
    rw [Graph.afterLayouts, List.foldl_cons, List.foldl_nil, Graph.layout_snd, Graph.breakRows_eq,
      rowBreaks_twoWords]
  let stops (g : Graph) : List (Stop Float32) := (g.track.sized (twoWordsRuler none)).stops 32.0
  have hfits : ∀ k < (stops (twoWordsGraph.breakAfterAll [0]).1).length,
      le (Stop.sumTo 0.0 (stops (twoWordsGraph.breakAfterAll [0]).1) k) 1000.0 = true := by
    decide +kernel
  let settings : LayoutSettings Float32 := { LayoutSettings.default with textMetrics := .fixed }
  refine ⟨hg, rowBreaks_twoWords, ?_, ?_⟩
  · exact (layout_otherPage hg [twoWordsRuler (some 40.0)] settings _ none (some 40.0) _ _).1
  · refine ((layout_otherPage hg [twoWordsRuler (some 40.0)] settings _ none (some 1000.0) _ _).2.2
      rfl rfl _ rfl ?_).1
    change ∀ k < (stops (twoWordsGraph.afterLayouts [twoWordsRuler (some 40.0)])).length,
      Stop.FitsTo 1000.0 (stops (twoWordsGraph.afterLayouts [twoWordsRuler (some 40.0)])) k
    rw [hleft]
    exact hfits

end Railroad
