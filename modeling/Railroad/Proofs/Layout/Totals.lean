/-
# What a layout reports

The nodes of a page are checked at the end of a layout, one by one.  The heights of the rows and the
size of the page are sums over them, which no node holds, and these are not checked.

They are never negative and always numbers (`layout_totals`), but a sum may overflow: margins that
are each finite can make a page that is not (`layout_totals_overflow`).  Just if the width and the
height of the page are finite, everything that is reported is.

The arithmetic that is used of `Float32` is collected in `Railroad.Proofs.Number.Overflow`: a sum of
numbers that are not negative is not negative, and it is finite only if both parts are.
-/
import Railroad.Proofs.Layout.Exact
import Railroad.Proofs.Layout.Tiling
import Railroad.Proofs.Number.Overflow

namespace Railroad

open Scalar

/-! ## 1. Rows and pages that are not negative -/

/-- **What a layout reports** besides the boxes of the nodes.  Rows, their content and the page are
all of it. -/
def Layout.totals {α : Type} [Scalar α] (l : Layout α) : List α :=
  l.rowHeights ++ [l.content.width, l.content.height, l.size.width, l.size.height]

theorem RowExtent.height_nonneg_of_mem {gap : Float32} {t : Track (Cell Float32)} :
    ∀ height ∈ (t.rows gap).map RowExtent.height, le 0.0 height = true := by
  rw [Track.rows_eq, List.map_map, List.forall_mem_map]
  intro start _
  obtain ⟨hascent, hdescent⟩ := Track.measure_reach gap start
  change le 0.0 ((start.measure gap).ascent + (start.measure gap).descent) = true
  rw [hascent, hdescent]
  exact Binary.add_nonneg (Binary.largest_nonneg _) (Binary.largest_nonneg _)

namespace LayoutSettings

variable {s : LayoutSettings Float32}

theorem measure_nonneg (h : s.validate = .ok ()) : ∀ m ∈ s.measures, le 0.0 m.2 = true := by
  intro m hm
  obtain ⟨hfinite, hlt⟩ := measures_of_validate h m hm
  exact Binary.nonneg_of_finite hfinite hlt

/-- **The page around rows** of heights that are not negative: its size is not negative, and if it
is finite, so are the rows and their content. -/
theorem page_nonneg (h : s.validate = .ok ()) {rows : List (RowExtent Float32)}
    (hrows : ∀ height ∈ rows.map RowExtent.height, le 0.0 height = true) :
    let page := s.page rows
    (le 0.0 page.1.width = true ∧ le 0.0 page.1.height = true ∧
        le 0.0 page.2.width = true ∧ le 0.0 page.2.height = true) ∧
      (isFinite page.2.width = true → isFinite page.1.width = true) ∧
      (isFinite page.2.height = true → isFinite page.1.height = true ∧
        ∀ height ∈ rows.map RowExtent.height, isFinite height = true) := by
  intro page
  have hall := measure_nonneg h
  simp only [measures, List.forall_mem_cons] at hall
  obtain ⟨-, -, hgap, -, harc, harrow, htop, hright, hbottom, hleft, -⟩ := hall
  have htail : le 0.0 s.tail = true := by
    refine Binary.add_nonneg (Binary.div_nonneg hgap rfl) (Binary.larger_nonneg _ harrow)
  have hwidth : le 0.0 page.1.width = true := Binary.largest_nonneg _
  have hzero : le (0.0 : Float32) 0.0 = true := by decide
  obtain ⟨hheight, hfinite⟩ := Binary.foldl_add (rows.map RowExtent.height) hzero hrows
  have hleftWidth := Binary.add_nonneg hleft hwidth
  have hinner := Binary.add_nonneg hleftWidth htail
  have htopHeight := Binary.add_nonneg htop hheight
  refine ⟨⟨hwidth, hheight, Binary.add_nonneg hinner hright, Binary.add_nonneg htopHeight hbottom⟩,
    fun hpage => ?_, fun hpage => ?_⟩
  · have hwithTail := (Binary.finite_of_add hinner hright hpage).1
    have hwithoutTail := (Binary.finite_of_add hleftWidth htail hwithTail).1
    exact (Binary.finite_of_add hleft hwidth hwithoutTail).2
  · have habove := (Binary.finite_of_add htopHeight hbottom hpage).1
    have hcontent := (Binary.finite_of_add htop hheight habove).2
    exact ⟨hcontent, (hfinite hcontent).2⟩

end LayoutSettings

/-! ## 2. Layouts -/

/-- A box that can be drawn has a size. -/
theorem Cell.isUsable_of_misfit {α : Type} [Scalar α] {c : Cell α} (h : c.misfit? = none) :
    c.box.size.isUsable = true := by
  unfold misfit? at h
  simp only at h
  split at h
  · cases h
  case h_2 hnone => simpa using List.find?_eq_none.mp hnone c.box.size List.mem_cons_self

/-- Where a layout succeeds, all nodes of its page can be drawn. -/
theorem Wrapped.misfit_eq_none {α : Type} [Scalar α] {g₀ g : Graph} {t₀ : Track NodeId}
    {w : NodeId → Option NodeId} (hbare : g₀.Bare t₀) (h : Wrapped g₀ t₀ g w) {r : Ruler α}
    {l : Layout α} (hl : (g.layout r).1 = .ok l) : ∀ c ∈ l.track.toList, c.misfit? = none := by
  obtain ⟨w', h'⟩ := h.exists_breakRows hbare r
  intro c hc
  rw [(Graph.layout_ok hl).1] at hc
  have hat := Graph.cells_getElem? (h'.hasTree hbare) (g.spots_arranged r) hc
  exact Graph.exists_layout_iff.mp ⟨l, hl⟩ c (List.mem_of_getElem? hat)

/-- **What a layout reports is not negative, and all of it is finite just if the size of the page
is.**  The rows that a wrap ends have finite heights in any case, for these are checked.

The second part is the exact condition.  Boxes are checked when they are laid out and the totals of
a page are not, so a page can be reported whose width or height is infinite, though each of its
boxes is finite (`layout_totals_overflow`). -/
theorem layout_totals {registry : Build.Registry} {collapsing : Bool} {p : Production} {g : Graph}
    (h : (Build.compile registry collapsing p).1 = .ok g) (rulers : List (Ruler Float32))
    {r : Ruler Float32} (hr : r.settings.validate = .ok ()) {l : Layout Float32}
    (hl : ((g.afterLayouts rulers).layout r).1 = .ok l) :
    (∀ total ∈ l.totals, le 0.0 total = true) ∧
      (∀ height ∈ l.rowHeights.dropLast, isUsable height = true) ∧
      ((∀ total ∈ l.totals, isUsable total = true) ↔
        isFinite l.size.width = true ∧ isFinite l.size.height = true) := by
  obtain ⟨t, hbare⟩ := Build.bare_of_compile h
  obtain ⟨w, hw⟩ := (Wrapped.refl g t).afterLayouts hbare rulers
  obtain ⟨htrack, hrows, hpage⟩ := Graph.layout_ok hl
  rw [← hrows] at hpage
  have hheights : ∀ height ∈ l.rowHeights, le 0.0 height = true := by
    rw [Layout.rowHeights, hrows, Graph.rows_arranged]
    exact RowExtent.height_nonneg_of_mem
  obtain ⟨hnonneg, hwidth, hheight⟩ := LayoutSettings.page_nonneg hr hheights
  rw [← hpage] at hnonneg hwidth hheight
  have htotals : ∀ total ∈ l.totals, le 0.0 total = true := by
    simp only [Layout.totals, List.forall_mem_append, List.forall_mem_cons]
    exact ⟨hheights, hnonneg.1, hnonneg.2.1, hnonneg.2.2.1, hnonneg.2.2.2, List.forall_mem_nil _⟩
  refine ⟨htotals, ?_, fun husable => ?_, fun hfinite => ?_⟩
  · have hwraps : l.rowHeights.dropLast = l.track.breakers.map (·.box.size.height) := by
      rw [Layout.rowHeights, hrows, htrack, hw.heights_arranged hbare r (by decide)]
    rw [hwraps, List.forall_mem_map]
    intro c hc
    have hmem := Track.mem_toList_of_mem_chain l.track (List.mem_of_mem_filter hc)
    have hsize := Cell.isUsable_of_misfit (hw.misfit_eq_none hbare hl c hmem)
    exact ((Bool.and_eq_true _ _).mp hsize).2
  · have hsize := fun total htotal => ((Bool.and_eq_true _ _).mp (husable total htotal)).1
    exact ⟨hsize _ (by simp [Layout.totals]), hsize _ (by simp [Layout.totals])⟩
  · have hcontent := hheight hfinite.2
    have hall : ∀ total ∈ l.totals, isFinite total = true := by
      simp only [Layout.totals, List.forall_mem_append, List.forall_mem_cons]
      exact ⟨hcontent.2, hwidth hfinite.1, hcontent.1, hfinite.1, hfinite.2, List.forall_mem_nil _⟩
    exact fun total htotal => (Bool.and_eq_true _ _).mpr ⟨hall total htotal, htotals total htotal⟩

/-- Two words make a page of some size. -/
theorem layout_totals_twoWords : (Build.compile {} true twoWords).1 = .ok twoWordsGraph ∧
    (twoWordsRuler none).settings.validate = .ok () ∧
    ∃ l, ((twoWordsGraph.afterLayouts ([] : List (Ruler Float32))).layout
        (twoWordsRuler none)).1 = .ok l ∧
      ∀ total ∈ l.totals, isUsable total = true := by
  have hg : (Build.compile {} true twoWords).1 = .ok twoWordsGraph := by cbv
  have hr : (twoWordsRuler none).settings.validate = .ok () := by decide +kernel
  obtain ⟨l, hl⟩ : ∃ l, (twoWordsGraph.layout (twoWordsRuler none)).1 = .ok l := by
    refine Graph.exists_layout_iff.mpr ?_
    decide +kernel
  refine ⟨hg, hr, l, hl, (layout_totals hg [] hr hl).2.2.mpr ?_⟩
  rw [show l.size = _ from congrArg Prod.snd (Graph.layout_ok hl).2.2]
  decide +kernel

/-- The labels of two words, on a page with very wide margins. -/
def wideMarginRuler : Ruler Float32 :=
  .ofSymbols { LayoutSettings.default with margin := ⟨10.0, 3e38, 10.0, 3e38⟩ }
    ⟨[(.terminal, "a"), (.terminal, "b")]⟩

/-- **A page may become infinitely wide:** margins that pass the check make a layout that succeeds,
and the width of its page is infinite. -/
theorem layout_totals_overflow : (Build.compile {} true twoWords).1 = .ok twoWordsGraph ∧
    wideMarginRuler.settings.validate = .ok () ∧
    ∃ l, (twoWordsGraph.layout wideMarginRuler).1 = .ok l ∧ isFinite l.size.width = false := by
  have hg : (Build.compile {} true twoWords).1 = .ok twoWordsGraph := by cbv
  have hr : wideMarginRuler.settings.validate = .ok () := by decide +kernel
  obtain ⟨l, hl⟩ : ∃ l, (twoWordsGraph.layout wideMarginRuler).1 = .ok l := by
    refine Graph.exists_layout_iff.mpr ?_
    decide +kernel
  refine ⟨hg, hr, l, hl, ?_⟩
  rw [show l.size = _ from congrArg Prod.snd (Graph.layout_ok hl).2.2]
  decide +kernel

end Railroad
