/-
# How far nodes reach

Arcs and arrow heads take room above and below a track, whatever node stands on it.  Here it is
shown that there is room: with gaps around labels and between components that are large enough for
some reach (`LayoutSettings.LeavesRoom`), every node reaches that far above its track and below it
(`Track.reaches_rowCells`), and so does every row that has a node in it
(`Track.reaches_measure`).

A symbol and the empty word bring the room with them; any other node has it from one of its levels.

The argument goes down to the leaves: a level that a node owns has a node on it (`Track.IsOwned`),
and at the end of every chain of levels there is a symbol or the empty word.
-/
import Mathlib
import Railroad.Proofs.Layout.Nesting

namespace Railroad

open Scalar

/-! ## 1. Reach -/

/-- **A node reaches some way above and below its track.**  Track that turns away from a node needs
that much room. -/
structure Cell.Reaches (reach : Rat) (c : Cell Rat) : Prop where
  ascent : reach ≤ c.box.ascent
  descent : reach ≤ c.descent

/-- **A row reaches some way above and below its track.** -/
structure RowExtent.Reaches (reach : Rat) (row : RowExtent Rat) : Prop where
  ascent : reach ≤ row.ascent
  descent : reach ≤ row.descent

/-- **Gaps that leave some room** above and below each label and the empty word. -/
structure LayoutSettings.LeavesRoom (s : LayoutSettings Rat) (reach : Rat) : Prop
    extends s.NonNeg where
  symbol : reach ≤ s.symbolGap.height + s.componentGap.height / 2
  epsilon : reach ≤ (s.font.lineHeight + s.componentGap.height) / 2

/-- A node that reaches some way, on the page. -/
theorem Cell.Reaches.heights {reach line : Rat} {c : Cell Rat} (h : c.Reaches reach)
    (hline : c.onLine line = c) :
    c.box.top + reach ≤ c.box.line ∧ c.box.line + reach ≤ c.box.bottom := by
  obtain ⟨hon, htop, hbottom⟩ := Cell.heights_of_onLine hline
  have hascent := h.ascent
  have hdescent := h.descent
  rw [Cell.descent] at hdescent
  exact ⟨by linarith, by linarith⟩

theorem RowExtent.Reaches.height {reach : Rat} {row : RowExtent Rat} (h : row.Reaches reach) :
    2 * reach ≤ row.height := by
  rw [RowExtent.height]
  linarith [h.ascent, h.descent]

namespace Track

variable {reach gap : Rat}

/-- **A row reaches as far as each of its nodes,** if there are any. -/
theorem reaches_measure (gap : Rat) {t : Track (Cell Rat)}
    (h : ∀ c ∈ t.rowCells, c.Reaches reach) (hcells : t.rowCells ≠ []) :
    (t.measure gap).Reaches reach := by
  obtain ⟨c, hc⟩ := List.exists_mem_of_ne_nil _ hcells
  obtain ⟨hascent, hdescent⟩ := covers_measure gap t c hc
  exact ⟨(h c hc).ascent.trans hascent, (h c hc).descent.trans hdescent⟩

theorem rowCells_ne_nil_before {item : Item (Cell Rat)} {rest : Track (Cell Rat)}
    (hitem : item.isWrap = false) : (item.before rest).rowCells ≠ [] := by
  rw [rowCells_before hitem]
  exact List.cons_ne_nil _ _

/-- A level that a node owns has a node on it. -/
theorem IsOwned.rowCells_ne_nil {t : Track (Cell Rat)} (h : t.IsOwned) : t.rowCells ≠ [] := by
  induction t using item_induction with
  | stop => cases h.1
  | before item rest _ _ => exact rowCells_ne_nil_before (wrapFree_before h.2).1

/-- A node whose level lies inside it on its own track reaches as far as the level. -/
theorem LiesIn.reaches {line : Rat} {c : Cell Rat} {level : Track (Cell Rat)}
    (h : level.LiesIn gap c.box.line c.box.top c.box.bottom) (hline : c.onLine line = c)
    (hlevel : (level.measure gap).Reaches reach) : c.Reaches reach := by
  obtain ⟨hon, htop, hbottom⟩ := Cell.heights_of_onLine hline
  have habove := h.above_le
  have hbelow := h.le_below
  rw [rowTop] at habove
  rw [rowBottom] at hbelow
  constructor
  case ascent => linarith [hlevel.ascent]
  case descent =>
    rw [Cell.descent]
    linarith [hlevel.descent]

end Track

/-! ## 2. Nodes -/

namespace Item

variable {r : Ruler Rat} {reach : Rat} {c : Cell Rat}

/-- A symbol has half of its box on either side of its track, the gaps around its label with it. -/
theorem Sized.reaches_symbol (h : (symbol c).Sized r) (hextent : c.extent = c.box.size)
    (hs : r.settings.LeavesRoom reach) (hl : r.LabelsNonNeg) : c.Reaches reach := by
  have hlabel := (hl c.node).2
  have hroom := hs.symbol
  constructor
  case ascent =>
    rw [h.ascent]
    simp only [Ruler.symbolBox, Box.ofSize, Exact.two_eq]
    linarith
  case descent =>
    rw [Cell.descent, hextent, h.size, h.ascent]
    simp only [Ruler.symbolBox, Box.ofSize, Exact.two_eq]
    linarith

theorem Sized.reaches_epsilon (h : (epsilon c).Sized r) (hextent : c.extent = c.box.size)
    (hs : r.settings.LeavesRoom reach) : c.Reaches reach := by
  have hroom := hs.epsilon
  constructor
  case ascent =>
    rw [h.ascent]
    simp only [Ruler.epsilonBox, Box.ofSize, Exact.two_eq]
    linarith
  case descent =>
    rw [Cell.descent, hextent, h.size, h.ascent]
    simp only [Ruler.epsilonBox, Box.ofSize, Exact.two_eq]
    linarith

/-- An iteration is as far above its level as the empty word is high above its track, and its level
is below the track. -/
theorem Sized.reaches_iteration {body : Track (Cell Rat)} (h : (iteration c body).Sized r)
    (hextent : c.extent = c.box.size) (hs : r.settings.LeavesRoom reach)
    (hbody : (body.measure r.settings.componentGap.width).Reaches reach) : c.Reaches reach := by
  have hroom := hs.epsilon
  constructor
  case ascent =>
    rw [h.ascent]
    simp only [Ruler.iterationBox, Box.ofSize, Exact.two_eq]
    linarith
  case descent =>
    have habove := body.ascent_nonneg r.settings.componentGap.width
    rw [Cell.descent, hextent, (h.iteration_box hs.toNonNeg).1, RowExtent.height]
    linarith [hbody.descent]

/-- **Every node reaches as far as its levels do,** or as far as there is room around a label. -/
theorem Fits.reaches {item : Item (Cell Rat)} (h : item.Fits r) (hitem : item.isWrap = false)
    (hs : r.settings.LeavesRoom reach) (hl : r.LabelsNonNeg)
    (hlevels : ∀ level ∈ item.levels, level.IsOwned →
      (level.measure r.settings.componentGap.width).Reaches reach) : item.mark.Reaches reach := by
  have hnests := h.nests hs.toNonNeg
  have hextent := extent_mark h.proper
  obtain ⟨hproper, hsized, line, hstands⟩ := h
  have hline := item.onLine_mark hitem hstands
  cases item with
  | wrap _ => cases hitem
  | symbol c => exact hsized.reaches_symbol hextent hs hl
  | epsilon c => exact hsized.reaches_epsilon hextent hs
  | optional c body =>
    have hlies : body.LiesIn r.settings.componentGap.width c.box.line c.box.top c.box.bottom :=
      hnests
    exact hlies.reaches hline (hlevels body (List.mem_singleton_self _) hlies.owned)
  | iteration c body =>
    exact hsized.reaches_iteration hextent hs
      (hlevels body (List.mem_singleton_self _) hproper.2)
  | rerun c body between =>
    exact hnests.1.reaches hline (hlevels body List.mem_cons_self hnests.1.owned)
  | choice branches =>
    obtain ⟨body, hcons⟩ := Track.levels_eq_head_cons branches
    have hhead : (branches.head, body) ∈ branches.levels := hcons ▸ List.mem_cons_self
    obtain ⟨-, hlies⟩ := hnests.1 _ hhead
    exact hlies.reaches hline (hlevels body (List.mem_map_of_mem hhead) hlies.owned)

end Item

/-! ## 3. Levels -/

namespace Track

variable {r : Ruler Rat} {reach : Rat}

/-- **All nodes of a row reach as far as there is room around a label.** -/
theorem reaches_rowCells (hs : r.settings.LeavesRoom reach) (hl : r.LabelsNonNeg)
    (t : Track (Cell Rat)) : (∀ item ∈ t.items, item.Fits r) →
    ∀ c ∈ t.rowCells, c.Reaches reach := by
  induction t using row_induction with
  | stop => exact fun _ => List.forall_mem_nil _
  | wrap c rest ih =>
    intro h
    rw [rowCells]
    split
    · exact List.forall_mem_nil _
    · exact ih (List.forall_mem_cons.mp h).2
  | before item rest hitem inside ih =>
    intro h
    obtain ⟨hfits, hinside, hrest⟩ := forall_items_before.mp h
    rw [rowCells_before hitem]
    refine List.forall_mem_cons.mpr ⟨hfits.reaches hitem hs hl fun level hlevel howned => ?_,
      ih hrest⟩
    exact reaches_measure _ (inside level hlevel (hinside level hlevel)) howned.rowCells_ne_nil

/-- **A level that a node owns reaches as far,** at any depth. -/
theorem IsOwned.reaches {level : Track (Cell Rat)} (h : level.IsOwned)
    (hs : r.settings.LeavesRoom reach) (hl : r.LabelsNonNeg)
    (hfits : ∀ item ∈ level.items, item.Fits r) :
    (level.measure r.settings.componentGap.width).Reaches reach :=
  reaches_measure _ (reaches_rowCells hs hl level hfits) h.rowCells_ne_nil

end Track

/-- **The track of a node is in its box,** with the reach on either side. -/
theorem Item.Fits.line_mem {r : Ruler Rat} {reach : Rat} {item : Item (Cell Rat)} (h : item.Fits r)
    (hitem : item.isWrap = false) (hs : r.settings.LeavesRoom reach) (hl : r.LabelsNonNeg)
    (hlevels : ∀ level ∈ item.levels, ∀ x ∈ level.items, x.Fits r) :
    item.mark.box.line ∈ Set.Icc (item.mark.box.top + reach) (item.mark.box.bottom - reach) := by
  obtain ⟨line, hstands⟩ := h.stands
  have hroom := h.reaches hitem hs hl fun level hlevel howned =>
    howned.reaches hs hl (hlevels level hlevel)
  obtain ⟨habove, hbelow⟩ := hroom.heights (item.onLine_mark hitem hstands)
  exact ⟨habove, by linarith⟩

end Railroad
