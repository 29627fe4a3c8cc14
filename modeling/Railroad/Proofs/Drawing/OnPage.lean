/-
# Nothing outside the page

The size of a page is the room of its rows with a margin around them and some room at the end of the
rows.  Not everything is drawn in a row: a turn into the next row swings out to the right of the one
and to the left of the other, and a piece of track leads in and another one out.

Along a page the rows are ahead (`Track.Ahead`), each with the room that the wrap before it leads
to.  With measures that leave enough room (`LayoutSettings.PageRoomy`) all marks of the walk along
them are on the page (`Canvas.confined_page`); the measures that are in force unless others are set
are such (`LayoutSettings.pageRoomy_default`).

The induction along a page carries what is ahead of the walk: the row at hand and the heights of the
rows after it.  A wrap that ends a row moves on to the next of them, a wrap that does not leaves
them as they are, and every other node lies in the row at hand.  All that a turn draws is beside the
two rows that it joins, in the margin or in the room at the end of rows.
-/
import Mathlib
import Railroad.Proofs.Drawing.Confined
import Railroad.Proofs.Grammar.Reached
import Railroad.Proofs.Layout.Drawable

namespace Railroad

open Scalar

/-! ## 1. Rows ahead -/

namespace Track

/-- **The rows ahead** of a place in a row of the extent `row`, that one first.  A wrap that ends a
row begins a new one with what is left of the level. -/
def rowsAhead (gap : Rat) (row : RowExtent Rat) (t : Track (Cell Rat)) : List (RowExtent Rat) :=
  row :: t.laterRows.map (measure gap)

/-- How high the rows ahead are together. -/
def heightAhead (gap : Rat) (row : RowExtent Rat) (t : Track (Cell Rat)) : Rat :=
  ((t.rowsAhead gap row).map RowExtent.height).sum

/-- **What is ahead on a page,** from a place in a row on that begins at the height `top` and has
the extent `row`.  It is kept from node to node, and a wrap that ends a row moves it on to the next
one. -/
structure Ahead (r : Ruler Rat) (top : Rat) (row : RowExtent Rat) (t : Track (Cell Rat)) :
    Prop where
  fits : ∀ item ∈ t.items, item.Fits r
  framed : ∀ item ∈ t.items, item.Framed
  inside : t.Inside fun level => ∀ c ∈ level.chain, c.box.onPage = false
  led : t.Led
  stands : t.StandsFrom r.settings.componentGap top row
  covers : row.Covers t.rowCells
  /-- The wraps that end rows are as high as their rows. -/
  heights : t.breakers.map (·.box.size.height)
    = ((t.rowsAhead r.settings.componentGap.width row).map RowExtent.height).dropLast

variable {r : Ruler Rat} {top gap : Rat} {row : RowExtent Rat} {rest : Track (Cell Rat)}

theorem rowsAhead_before {item : Item (Cell Rat)} (hitem : item.isWrap = false) :
    (item.before rest).rowsAhead gap row = rest.rowsAhead gap row := by
  rw [rowsAhead, rowsAhead, laterRows_before hitem]

theorem rowsAhead_wrap {c : Cell Rat} : (wrap c rest).rowsAhead gap row
    = if c.box.hasHeight then row :: rest.rowsAhead gap (rest.measure gap)
      else rest.rowsAhead gap row := by
  rw [rowsAhead, laterRows]
  split <;> rfl

theorem heightAhead_wrap {c : Cell Rat} (hh : c.box.hasHeight = true) :
    (wrap c rest).heightAhead gap row = row.height + rest.heightAhead gap (rest.measure gap) := by
  rw [heightAhead, rowsAhead_wrap, if_pos hh, List.map_cons, List.sum_cons]
  rfl

theorem height_le_heightAhead (gap : Rat) (row : RowExtent Rat) (t : Track (Cell Rat)) :
    row.height ≤ t.heightAhead gap row := by
  have hlater : 0 ≤ ((t.laterRows.map (measure gap)).map RowExtent.height).sum := by
    refine List.sum_nonneg ?_
    simp only [List.forall_mem_map]
    exact fun start _ => start.height_nonneg gap
  rw [heightAhead, rowsAhead, List.map_cons, List.sum_cons]
  exact le_add_of_nonneg_right hlater

/-- Behind a node the same rows are ahead. -/
theorem Ahead.before {item : Item (Cell Rat)} (h : (item.before rest).Ahead r top row)
    (hitem : item.isWrap = false) : rest.Ahead r top row := by
  have hproper := (forall_items_before.mp h.fits).1.proper
  have hheights := h.heights
  have hcovers := h.covers
  rw [rowsAhead_before hitem, breakers_before hitem hproper] at hheights
  rw [rowCells_before hitem] at hcovers
  exact {
    fits := (forall_items_before.mp h.fits).2.2
    framed := (forall_items_before.mp h.framed).2.2
    inside := (forall_items_before.mp h.inside).2.2
    led := (led_before hitem).mp h.led
    stands := ((standsFrom_before hitem).mp h.stands).2
    covers := (List.forall_mem_cons.mp hcovers).2
    heights := hheights }

/-- Behind a wrap that breaks nothing the same rows are ahead. -/
theorem Ahead.wrap_idle {c : Cell Rat} (h : (wrap c rest).Ahead r top row)
    (hh : ¬c.box.hasHeight = true) : rest.Ahead r top row := by
  have hkind : c.node.kind = .wrap := (List.forall_mem_cons.mp h.fits).1.proper
  have hheights := h.heights
  have hcovers := h.covers
  have hstands := standsFrom_wrap h.stands
  rw [rowsAhead_wrap, breakers_wrap hkind, if_neg hh, if_neg hh] at hheights
  rw [rowCells, if_neg hh] at hcovers
  rw [if_neg hh] at hstands
  exact {
    fits := (List.forall_mem_cons.mp h.fits).2
    framed := (List.forall_mem_cons.mp h.framed).2
    inside := (List.forall_mem_cons.mp h.inside).2
    led := h.led.2
    stands := hstands
    covers := hcovers
    heights := hheights }

/-- **Behind a wrap that ends a row** the next row is ahead, right below; the wrap is as high as the
row it ends. -/
theorem Ahead.wrap_break {c : Cell Rat} (h : (wrap c rest).Ahead r top row)
    (hh : c.box.hasHeight = true) : c.box.size.height = row.height ∧
      rest.Ahead r (top + row.height) (rest.measure r.settings.componentGap.width) := by
  have hkind : c.node.kind = .wrap := (List.forall_mem_cons.mp h.fits).1.proper
  have hheights := h.heights
  have hstands := standsFrom_wrap h.stands
  rw [rowsAhead_wrap, breakers_wrap hkind, if_pos hh, if_pos hh, rowsAhead, List.map_cons,
    List.map_cons, List.map_cons, List.dropLast_cons_cons, List.cons.injEq] at hheights
  rw [if_pos hh] at hstands
  exact ⟨hheights.1, {
    fits := (List.forall_mem_cons.mp h.fits).2
    framed := (List.forall_mem_cons.mp h.framed).2
    inside := (List.forall_mem_cons.mp h.inside).2
    led := h.led.2
    stands := hstands
    covers := covers_measure _ rest
    heights := hheights.2 }⟩

/-- **There is a node in every row of a page,** for a wrap with a height needs a row that has one,
and something follows it. -/
theorem Ahead.rowCells_ne_nil (t : Track (Cell Rat)) :
    t.Ahead r top (t.measure r.settings.componentGap.width) → t.isStop = false →
    t.rowCells ≠ [] := by
  induction t using row_induction with
  | stop => exact fun _ hpresent => by cases hpresent
  | wrap c rest ih =>
    intro h _
    rw [measure_wrap] at h
    rw [rowCells]
    split
    case isTrue hh =>
      have hheight := (h.wrap_break hh).1
      have hpos := (Exact.lt_iff _ _).mp hh
      rw [if_pos hh] at hheight
      rw [hheight] at hpos
      simp [RowExtent.empty, RowExtent.height] at hpos
    case isFalse hh =>
      rw [if_neg hh] at h
      exact ih (h.wrap_idle hh) h.led.1
  | before item rest hitem _ _ => exact fun _ _ => rowCells_ne_nil_before hitem

/-- A wrap reaches from the top of its row down by its own height. -/
theorem Ahead.wrap_place {c : Cell Rat} (h : (wrap c rest).Ahead r top row) :
    c.box.top = top ∧ c.box.line = top + row.ascent ∧ c.extent.width = 0 ∧
      c.box.bottom = top + c.extent.height := by
  have hfits := (List.forall_mem_cons.mp h.fits).1
  have hextent : c.extent = c.box.size := Item.extent_mark hfits.proper
  have hwidth : c.box.size.width = 0.0 := hfits.sized
  have hstands := h.stands
  rw [StandsFrom, placed_wrap, wrap.injEq] at hstands
  rw [hextent, hwidth, ← hstands.1]
  exact ⟨rfl, rfl, Exact.zero_eq, rfl⟩

/-- The nodes of the row at hand lie in it. -/
theorem Ahead.mark_mem {item : Item (Cell Rat)} (h : (item.before rest).Ahead r top row)
    (hitem : item.isWrap = false) :
    top ≤ item.mark.box.top ∧ item.mark.box.bottom ≤ top + row.height := by
  have hcovers := h.covers
  rw [rowCells_before hitem] at hcovers
  obtain ⟨hascent, hdescent⟩ := (List.forall_mem_cons.mp hcovers).1
  have hline := item.onLine_mark hitem ((standsFrom_before hitem).mp h.stands).1
  obtain ⟨hon, htop, hbottom⟩ := Cell.heights_of_onLine hline
  rw [Cell.descent] at hdescent
  rw [RowExtent.height]
  exact ⟨by linarith, by linarith⟩

end Track

/-! ## 2. Room on the page -/

/-- In exact numbers it does not matter in which order a sum is taken. -/
theorem Exact.total_eq (values : List Rat) : total values = values.sum := by
  have hoffset := offset_eq values 0.0 values.length
  rwa [offset, List.take_length, zero_eq, zero_add, ← zero_eq] at hoffset

/-- **Measures with room on the page** for what is drawn beside the rows.  Only the left margin has
to be of some width, since a new row begins with a turn. -/
structure LayoutSettings.PageRoomy (s : LayoutSettings Rat) (reach : Rat) : Prop
    extends s.Roomy reach where
  top : 0 ≤ s.margin.top
  right : 0 ≤ s.margin.right
  bottom : 0 ≤ s.margin.bottom
  left : s.tail ≤ s.margin.left

/-- The measures that are in force unless others are set leave room on the page, whatever its
width. -/
theorem LayoutSettings.pageRoomy_default (width : Option Rat) (metrics : TextMetrics) :
    LayoutSettings.PageRoomy
      { LayoutSettings.default with pageWidth := width, textMetrics := metrics } 9 := by
  have hline : (8 : Rat) ≤ ({} : Font).lineHeight := by decide +kernel
  refine { symbolWidth := ?_, symbolHeight := ?_, gapWidth := ?_, gapHeight := ?_, symbol := ?_,
           epsilon := ?epsilon, arc := ?_, arrow := ?_, arc_le_reach := ?_, arrow_le_reach := ?_,
           arc_le_bypass := ?_, arc_le_gap := ?_, arrow_le_gap := ?_, top := ?_, right := ?_,
           bottom := ?_, left := ?_ }
  case epsilon =>
    simp only [LayoutSettings.default]
    linarith
  all_goals norm_num [LayoutSettings.default, tail, larger, lt, le]

/-- The room at the end of the rows is enough for an arrow head and for a turn. -/
theorem LayoutSettings.le_tail (s : LayoutSettings Rat) :
    s.componentGap.width / 4 + s.arrowSize ≤ s.tail ∧
      s.componentGap.width / 4 + s.arcSize / 2 ≤ s.tail := by
  rw [tail, Exact.larger_eq, Exact.two_eq, show (4.0 : Rat) = 4 by norm_num]
  exact ⟨by linarith [le_max_left s.arrowSize (s.arcSize / 2)],
    by linarith [le_max_right s.arrowSize (s.arcSize / 2)]⟩

/-- All rows of a page are as high together as its content. -/
theorem LayoutSettings.heightAhead_page (s : LayoutSettings Rat) (gap : Rat)
    (t : Track (Cell Rat)) :
    t.heightAhead gap (t.measure gap) = (s.page (t.rows gap)).1.height := by
  simp only [page, Exact.total_eq, Track.rows_eq]
  rfl

namespace Canvas

variable {cv : Canvas Rat} {r : Ruler Rat} {reach : Rat} {b : Brush Rat}

/-- The way out of a page stays in the room at the end of the rows. -/
theorem confined_closing (hs : cv.settings.PageRoomy reach) {cursor line right top bottom : Rat}
    (hcursor : cursor ∈ Set.Icc 0 right)
    (hline : line ∈ Set.Icc (top + reach) (bottom - reach)) :
    Confined (Set.Icc 0 (right + cv.settings.tail)) (Set.Icc top bottom)
      (cv.closing b cursor line) := by
  have hgap := hs.gapWidth
  have harrow := hs.arrow
  have hfits := hs.arrow_le_reach
  obtain ⟨hend, -⟩ := cv.settings.le_tail
  obtain ⟨hleft, hright⟩ := hcursor
  obtain ⟨habove, hbelow⟩ := hline
  refine .line ?_ ?_ ?_ ?_ <| .arrow ?_ ?base ?_ ?_ ?_ .nil
  case base =>
    rw [Direction.sign_forward]
    constructor <;> linarith
  all_goals constructor <;> linarith

/-- A turn into the next row stays in the room beside the rows. -/
theorem confined_rowTurn (hs : cv.settings.PageRoomy reach) {c : Cell Rat}
    {cursor right top bottom nextLine : Rat} (hcursor : cursor ∈ Set.Icc 0 right)
    (hmargin : cv.settings.margin.left ≤ right)
    (hline : c.box.line ∈ Set.Icc top (bottom - cv.settings.arcSize))
    (hbetween : c.box.bottom
      ∈ Set.Icc (top + cv.settings.arcSize) (bottom - cv.settings.arcSize))
    (hnext : nextLine ∈ Set.Icc (top + cv.settings.arcSize) bottom) :
    Confined (Set.Icc 0 (right + cv.settings.tail)) (Set.Icc top bottom)
      (cv.rowTurn b cursor c nextLine) := by
  have harc := hs.arc
  have hfits := hs.arc_le_gap
  have hleft := hs.left
  obtain ⟨-, hend⟩ := cv.settings.le_tail
  obtain ⟨hcursorLeft, hcursorRight⟩ := hcursor
  obtain ⟨hlineTop, hlineBottom⟩ := hline
  obtain ⟨hbetweenTop, hbetweenBottom⟩ := hbetween
  obtain ⟨hnextTop, hnextBottom⟩ := hnext
  simp only [rowTurn, Exact.two_eq]
  refine .line ?_ ?_ ?_ ?_ <| .arc ?_ ?_ ?_ ?_ <| .line ?_ ?_ ?_ ?_ <| .arc ?_ ?_ ?_ ?_ <|
    .line ?_ ?_ ?_ ?_ <| .arc ?_ ?_ ?_ ?_ <| .line ?_ ?_ ?_ ?_ <| .arc ?_ ?_ ?_ ?_ <|
    .line ?_ ?_ ?_ ?_ .nil
  all_goals constructor <;> linarith

/-! ## 3. The walk along a page -/

theorem track_wrap_break {c : Cell Rat} {rest : Track (Cell Rat)} (hh : c.box.hasHeight = true)
    (hpresent : rest.isStop = false) (cursor : Rat) :
    cv.track b .forward cursor (.wrap c rest)
      = cv.node b .forward c cursor cv.settings.margin.left
          (cv.rowTurn (b.override c.node.style) cursor c (rest.lineOr c.box.line))
          false false fun cursor => cv.track b .forward cursor rest := by
  rw [track, hh, hpresent]
  rfl

theorem track_wrap_idle {c : Cell Rat} {rest : Track (Cell Rat)} (hh : ¬c.box.hasHeight = true)
    (hpresent : rest.isStop = false) (cursor : Rat) :
    cv.track b .forward cursor (.wrap c rest)
      = cv.node b .forward c cursor (cursor + c.extent.width) [] false false
          fun cursor => cv.track b .forward cursor rest := by
  rw [track, Bool.eq_false_iff.mpr hh, hpresent]
  rfl

variable {above below right top cursor : Rat} {row : RowExtent Rat} {c : Cell Rat}
  {rest : Track (Cell Rat)}

/-- A wrap that breaks nothing has no room, and so its frame is a point of its row. -/
theorem confined_wrap_idle (hs : cv.settings.PageRoomy reach)
    (h : (Track.wrap c rest).Ahead r top row) (hh : ¬c.box.hasHeight = true)
    (hrow : row.Reaches reach) (habove : above ≤ top) (hbelow : top + row.height ≤ below)
    (hcursor : cursor ∈ Set.Icc 0 (right + cv.settings.tail))
    (hrest : Confined (Set.Icc 0 (right + cv.settings.tail)) (Set.Icc above below)
      (cv.track b .forward cursor rest).marks) :
    Confined (Set.Icc 0 (right + cv.settings.tail)) (Set.Icc above below)
      (cv.track b .forward cursor (.wrap c rest)).marks := by
  have hreach := hs.reach_nonneg
  have hascent := hrow.ascent
  have hdescent := hrow.descent
  obtain ⟨htop, hline, hwidth, -⟩ := h.wrap_place
  have hheight : c.extent.height = 0 := by
    have hextent : c.extent = c.box.size :=
      Item.extent_mark (List.forall_mem_cons.mp h.fits).1.proper
    rcases (List.forall_mem_cons.mp h.framed).1.2 with hbreak | hzero
    · exact absurd hbreak hh
    · rw [hextent, hzero, Exact.zero_eq]
  rw [RowExtent.height] at hbelow
  rw [track_wrap_idle hh h.led.1, hwidth, add_zero]
  refine confined_node hcursor ?_ ?_ ?_ ?_ hcursor (if_neg Bool.false_ne_true).symm hcursor .nil
    (fun hlast => by cases hlast) hrest
  · rwa [hwidth, add_zero]
  all_goals constructor <;> linarith

/-- The turn into the next row lies beside that row and the one that ends. -/
theorem confined_wrap_break (hs : cv.settings.PageRoomy reach)
    (h : (Track.wrap c rest).Ahead r top row) (hh : c.box.hasHeight = true)
    (hrow : row.Reaches reach)
    (hnext : (rest.measure r.settings.componentGap.width).Reaches reach) (habove : above ≤ top)
    (hbelow : top + row.height + (rest.measure r.settings.componentGap.width).height ≤ below)
    (hcursor : cursor ∈ Set.Icc 0 right) (hmargin : cv.settings.margin.left ≤ right)
    (hrest : Confined (Set.Icc 0 (right + cv.settings.tail)) (Set.Icc above below)
      (cv.track b .forward cv.settings.margin.left rest).marks) :
    Confined (Set.Icc 0 (right + cv.settings.tail)) (Set.Icc above below)
      (cv.track b .forward cursor (.wrap c rest)).marks := by
  have hreach := hs.reach_nonneg
  have harc := hs.arc_le_reach
  have hgap := hs.gapWidth
  have hleft := hs.left
  obtain ⟨hend, -⟩ := cv.settings.le_tail
  have harrow := hs.arrow
  obtain ⟨htop, hline, hwidth, hbottom⟩ := h.wrap_place
  obtain ⟨hheight, hahead⟩ := h.wrap_break hh
  have hextent : c.extent = c.box.size :=
    Item.extent_mark (List.forall_mem_cons.mp h.fits).1.proper
  rw [← hextent] at hheight
  have hnextLine := Track.lineOr_of_standsFrom hahead.stands h.led.1 c.box.line
  have hascent := hrow.ascent
  have hdescent := hrow.descent
  have hnextAscent := hnext.ascent
  have hnextDescent := hnext.descent
  obtain ⟨hcursorLeft, hcursorRight⟩ := hcursor
  have hrowEnd : row.height = row.ascent + row.descent := rfl
  have hnextEnd : (rest.measure r.settings.componentGap.width).height
    = (rest.measure r.settings.componentGap.width).ascent
      + (rest.measure r.settings.componentGap.width).descent := rfl
  -- The turn changes rows at the bottom of the wrap, where both tracks are a reach away.
  rw [track_wrap_break hh h.led.1]
  refine confined_node ?_ ?_ ?_ ?_ ?_ ?_ (if_neg Bool.false_ne_true).symm ?_
    (confined_rowTurn hs ⟨hcursorLeft, hcursorRight⟩ hmargin ?_ ?_ ?_)
    (fun hlast => by cases hlast) hrest
  all_goals constructor <;> linarith

/-- **What is drawn along the rows ahead is on the page,** which ends at the height `below` and
whose rows end at `right`. -/
theorem confined_rows (hcv : cv.settings = r.settings) (hs : cv.settings.PageRoomy reach)
    (hl : r.LabelsNonNeg) (t : Track (Cell Rat)) :
    ∀ {top : Rat} {row : RowExtent Rat} {cursor : Rat}, t.Ahead r top row → row.Reaches reach →
    above ≤ top → top + t.heightAhead r.settings.componentGap.width row ≤ below →
    cv.settings.margin.left ≤ cursor →
    cursor + (t.measure r.settings.componentGap.width).width ≤ right →
    (∀ start ∈ t.laterRows, cv.settings.margin.left
      + (start.measure r.settings.componentGap.width).width ≤ right) →
    Confined (Set.Icc 0 (right + cv.settings.tail)) (Set.Icc above below)
      (cv.track b .forward cursor t).marks := by
  have hleaves : r.settings.LeavesRoom reach := hcv ▸ hs.toLeavesRoom
  have hreach := hs.reach_nonneg
  have hgap := hs.gapWidth
  have harrow := hs.arrow
  have hleft := hs.left
  obtain ⟨hend, -⟩ := cv.settings.le_tail
  induction t using Track.row_induction with
  | stop => exact fun _ _ _ _ _ _ _ => .nil
  | wrap c rest ih =>
    intro top row cursor h hrow habove hbelow hfrom hto hlater
    have hrestFits := (List.forall_mem_cons.mp h.fits).2
    have hrestWidth := rest.width_nonneg hleaves.toNonNeg hl hrestFits
    rw [Track.measure_wrap] at hto
    rw [Track.laterRows] at hlater
    by_cases hh : c.box.hasHeight = true
    · -- The next row begins at the left margin, whatever the width of this one.
      rw [if_pos hh] at hto hlater
      obtain ⟨hnextTo, hlater⟩ := List.forall_mem_cons.mp hlater
      obtain ⟨-, hahead⟩ := h.wrap_break hh
      have hnext := Track.reaches_measure r.settings.componentGap.width
        (Track.reaches_rowCells hleaves hl rest hrestFits)
        (Track.Ahead.rowCells_ne_nil rest hahead h.led.1)
      have hnextHeight := rest.height_le_heightAhead r.settings.componentGap.width
        (rest.measure r.settings.componentGap.width)
      have hcursor : cursor ≤ right := by
        simpa only [RowExtent.empty, Exact.zero_eq, add_zero] using hto
      rw [Track.heightAhead_wrap hh] at hbelow
      refine confined_wrap_break hs h hh hrow hnext habove (by linarith)
        ⟨by linarith, hcursor⟩ (hfrom.trans hcursor) ?_
      exact ih hahead hnext (by linarith [hrow.height]) (by linarith) (le_refl _) hnextTo hlater
    · rw [if_neg hh] at hto hlater
      have hheight := (Track.wrap c rest).height_le_heightAhead r.settings.componentGap.width row
      refine confined_wrap_idle hs h hh hrow habove (by linarith) ⟨by linarith, by linarith⟩ ?_
      rw [Track.heightAhead, Track.rowsAhead_wrap, if_neg hh, ← Track.heightAhead] at hbelow
      exact ih (h.wrap_idle hh) hrow habove hbelow hfrom hto hlater
  | before item rest hitem _ ih =>
    intro top row cursor h hrow habove hbelow hfrom hto hlater
    obtain ⟨hfits, hlevels, hrest⟩ := Track.forall_items_before.mp h.fits
    obtain ⟨hoff, hinner, -⟩ := Track.forall_items_before.mp h.inside
    obtain ⟨htop, hbottom⟩ := h.mark_mem hitem
    have hnear (level : Track (Cell Rat)) (hlevel : level ∈ item.levels) :=
      staysNear hcv hs.toRoomy hl level (hlevels level hlevel) (hoff level hlevel)
        (hinner level hlevel) (hfits.proper.wrapFree level hlevel)
    have hwidth := hfits.width_nonneg hleaves.toNonNeg hl fun level hlevel =>
      level.width_nonneg hleaves.toNonNeg hl (hlevels level hlevel)
    have hconnector := item.connector_nonneg hleaves.gapWidth rest
    have hrestWidth := rest.width_nonneg hleaves.toNonNeg hl hrest
    have hheight := (item.before rest).height_le_heightAhead r.settings.componentGap.width row
    have honward := onward_eq hcv hitem .forward cursor rest
    rw [Direction.go] at honward
    rw [Track.width_before hitem] at hto
    rw [Track.laterRows_before hitem] at hlater
    refine confined_before hcv hs.toRoomy hl hitem hfits hlevels hnear (Set.Icc_subset_Icc ?_ ?_)
      (Set.Icc_subset_Icc (by linarith) (by linarith)) ?_ (fun _ _ => ?_) ?_
    · simp only [leftEnd]
      linarith
    · simp only [leftEnd]
      linarith
    · rw [honward]
      exact ⟨by linarith, by linarith⟩
    · obtain ⟨hlineAbove, hlineBelow⟩ := hfits.line_mem hitem hleaves hl hlevels
      refine confined_closing hs ?_ ⟨by linarith, by linarith⟩
      rw [honward]
      exact ⟨by linarith, by linarith⟩
    · rw [honward]
      rw [Track.heightAhead, Track.rowsAhead_before hitem, ← Track.heightAhead] at hbelow
      exact ih (h.before hitem) hrow habove hbelow (by linarith) (by linarith) hlater

/-- **A page is drawn in the heights of its rows,** and between the left side and the room at the
end of the rows. -/
theorem confined_content (hcv : cv.settings = r.settings) (hs : cv.settings.PageRoomy reach)
    (hl : r.LabelsNonNeg) {t : Track (Cell Rat)} (hpresent : t.isStop = false)
    (h : t.Ahead r r.settings.margin.top (t.measure r.settings.componentGap.width)) :
    let content := (r.settings.page (t.rows r.settings.componentGap.width)).1
    Confined (Set.Icc 0 (r.settings.margin.left + content.width + r.settings.tail))
      (Set.Icc r.settings.margin.top (r.settings.margin.top + content.height)) (cv.page t) := by
  intro content
  have hleaves : r.settings.LeavesRoom reach := hcv ▸ hs.toLeavesRoom
  have hrow := Track.reaches_measure r.settings.componentGap.width
    (Track.reaches_rowCells hleaves hl t h.fits) (h.rowCells_ne_nil t hpresent)
  have hheight := r.settings.heightAhead_page r.settings.componentGap.width t
  have hwidths (start : Track (Cell Rat)) (hstart : start ∈ t.rowStarts) :
      cv.settings.margin.left + (start.measure r.settings.componentGap.width).width
        ≤ r.settings.margin.left + content.width := by
    have hmem : start.measure r.settings.componentGap.width
        ∈ t.rows r.settings.componentGap.width := by
      rw [Track.rows_eq]
      exact List.mem_map_of_mem hstart
    rw [hcv]
    exact add_le_add_right (r.settings.width_le_page hmem) _
  have hrows := confined_rows (b := cv.brush) hcv hs hl t h hrow (le_refl _)
    (by rw [hheight]) (le_refl _) (hwidths t List.mem_cons_self)
    fun start hstart => hwidths start (List.mem_cons_of_mem _ hstart)
  have hline : t.lineOr 0.0 ∈ Set.Icc r.settings.margin.top
      (r.settings.margin.top + content.height) := by
    have hreach := hs.reach_nonneg
    have hfirst : (t.measure r.settings.componentGap.width).height ≤ content.height :=
      hheight ▸ t.height_le_heightAhead _ _
    rw [RowExtent.height] at hfirst
    rw [Track.lineOr_of_standsFrom h.stands hpresent]
    exact ⟨by linarith [hrow.ascent], by linarith [hrow.descent]⟩
  have hmargin : r.settings.margin.left ≤ r.settings.margin.left + content.width :=
    le_add_of_nonneg_right (Exact.largest_nonneg _)
  have hgap := hs.gapWidth
  have harrow := hs.arrow
  have hleft := hs.left
  obtain ⟨hend, -⟩ := cv.settings.le_tail
  simp only [Canvas.page]
  rw [hcv] at hrows hgap harrow hleft hend ⊢
  refine .line ⟨?_, ?_⟩ hline ⟨?_, ?_⟩ hline hrows
  all_goals linarith

/-- **Everything on a page is drawn between its sides.** -/
theorem confined_page (hcv : cv.settings = r.settings) (hs : cv.settings.PageRoomy reach)
    (hl : r.LabelsNonNeg) {t : Track (Cell Rat)} (hpresent : t.isStop = false)
    (h : t.Ahead r r.settings.margin.top (t.measure r.settings.componentGap.width)) :
    let size := (r.settings.page (t.rows r.settings.componentGap.width)).2
    Confined (Set.Icc 0 size.width) (Set.Icc 0 size.height) (cv.page t) := by
  have hroomy : r.settings.PageRoomy reach := hcv ▸ hs
  refine (confined_content hcv hs hl hpresent h).mono (Set.Icc_subset_Icc (le_refl _) ?_)
    (Set.Icc_subset_Icc hroomy.top ?_)
  · exact le_add_of_nonneg_right hroomy.right
  · exact le_add_of_nonneg_right hroomy.bottom

end Canvas

/-! ## 4. Compiled graphs -/

/-- The rows of a layout are ahead of the beginning of its page. -/
theorem Wrapped.ahead_arranged {g₀ g : Graph} {t₀ : Track NodeId} {w : NodeId → Option NodeId}
    (hbare : g₀.Bare t₀) (h : Wrapped g₀ t₀ g w) (r : Ruler Rat) :
    (g.arranged r).1.Ahead r r.settings.margin.top
      ((g.arranged r).1.measure r.settings.componentGap.width) := by
  have hpage := h.laidOut hbare r
  have hheights := h.heights_arranged hbare r (by decide +kernel)
  rw [Graph.rows_arranged, Track.rows_eq] at hheights
  exact {
    fits := hpage.fits
    framed := g.framed_arranged r
    inside := hpage.inside
    led := hpage.led
    stands := hpage.stands
    covers := Track.covers_measure _ _
    heights := hheights }

/-- The measures that are in force unless others are set pass their check, with any page width
above zero. -/
theorem LayoutSettings.validate_default {width : Option Rat} (h : ∀ w, width = some w → 0 < w)
    (metrics : TextMetrics) : LayoutSettings.validate
      { LayoutSettings.default with pageWidth := width, textMetrics := metrics } = .ok () := by
  have hdefault : (LayoutSettings.default : LayoutSettings Rat).measures.find?
      (fun (_, value) => !isFinite value || lt value 0.0) = none := by decide +kernel
  have hmeasures : (measures { LayoutSettings.default with
      pageWidth := width, textMetrics := metrics }).find?
      (fun (_, value) => !isFinite value || lt value 0.0) = none := hdefault
  unfold validate
  rw [hmeasures]
  cases width with
  | none => rfl
  | some w =>
    have hpos : le w 0.0 = false := by
      rw [← Bool.not_eq_true, Exact.zero_eq]
      simpa [le] using h w rfl
    simp only [LayoutSettings.default, isFinite, hpos]
    rfl

/-- **With measures that leave room on the page every layout is drawn between its sides,** for all
compiled graphs, whatever layouts they have been through, and labels of any size. -/
theorem layout_confined {registry : Build.Registry} {collapsing : Bool} {p : Production} {g : Graph}
    (h : (Build.compile registry collapsing p).1 = .ok g) (rulers : List (Ruler Rat))
    {r : Ruler Rat} (hr : r.settings.validate = .ok ()) {reach : Rat}
    (hs : r.settings.PageRoomy reach) (hl : r.LabelsNonNeg) {cv : Canvas Rat}
    (hcv : cv.settings = r.settings) :
    ∃ l, ((g.afterLayouts rulers).layout r).1 = .ok l ∧
      Confined (Set.Icc 0 l.size.width) (Set.Icc 0 l.size.height) (cv.page l.track) := by
  obtain ⟨t, hbare⟩ := Build.bare_of_compile h
  obtain ⟨w, hw⟩ := (Wrapped.refl g t).afterLayouts hbare rulers
  obtain ⟨l, hok, -⟩ := layout_drawable h rulers hr hl
  obtain ⟨htrack, -, hsize⟩ := Graph.layout_ok hok
  have hpage := Canvas.confined_page hcv (hcv ▸ hs) hl (hw.laidOut hbare r).present
    (hw.ahead_arranged hbare r)
  rw [← Graph.rows_arranged, ← (congrArg Prod.snd hsize : l.size = _), ← htrack] at hpage
  exact ⟨l, hok, hpage⟩

/-- **A diagram of a grammar is drawn between the sides of its page,** with measures that leave room
there and whatever was added to the grammar. -/
theorem Grammar.render_confined [Shaping Rat] [Color.Notation] {g : Grammar} (hg : g.Reached)
    {settings : Settings Rat} {reach : Rat} (hs : settings.layout.PageRoomy reach) {name : String} {d : Diagram Rat}
    (h : g.render settings name = .ok d) :
    Confined (Set.Icc 0 d.size.width) (Set.Icc 0 d.size.height) d.marks := by
  obtain ⟨chart, graph, hvalid, hgraph, hlayout, hmarks⟩ := render_ok h
  obtain ⟨registry, collapsing, p, hcompile⟩ := hg.isCompiled_of_graph? hgraph
  have hlabels := Ruler.labelsNonNeg_ofSymbols settings.layout g.symbols
  have hsettings : (g.canvas settings.layout chart).settings = settings.layout := rfl
  obtain ⟨l, hok, hpage⟩ := layout_confined hcompile []
    (r := .ofSymbols settings.layout g.symbols) hvalid hs hlabels hsettings
  have hsame : d.layout = l := Except.ok.inj (hlayout.symm.trans hok)
  rw [hmarks, Diagram.size, hsame]
  exact hpage

/-- **Nothing is drawn outside the page** with the measures that are in force unless others are set,
and any page width above zero or none: for all compiled graphs, whatever layouts they have been
through, labels of any size and any look of the chart.  It is said of every point that a mark is
given by: ends of lines, corners of boxes and of the squares around arcs, tips, bases and wings of
arrow heads, and centres of labels.

What is needed of the other measures is that they leave room for what is drawn beside the rows and
between them (`LayoutSettings.PageRoomy`), which is a handful of inequalities that the defaults
satisfy. -/
theorem layout_onPage {registry : Build.Registry} {collapsing : Bool} {p : Production} {g : Graph}
    (h : (Build.compile registry collapsing p).1 = .ok g) (rulers : List (Ruler Rat))
    {r : Ruler Rat} {width : Option Rat} {metrics : TextMetrics}
    (hr : r.settings
      = { LayoutSettings.default with pageWidth := width, textMetrics := metrics })
    (hwidth : ∀ w, width = some w → 0 < w) (hl : r.LabelsNonNeg) {cv : Canvas Rat}
    (hcv : cv.settings = r.settings) :
    ∃ l, ((g.afterLayouts rulers).layout r).1 = .ok l ∧
      ∀ mark ∈ cv.page l.track, ∀ p ∈ mark.points,
        (0 ≤ p.x ∧ p.x ≤ l.size.width) ∧ 0 ≤ p.y ∧ p.y ≤ l.size.height := by
  have hvalid : r.settings.validate = .ok () := by
    rw [hr]
    exact LayoutSettings.validate_default hwidth metrics
  have hroomy : r.settings.PageRoomy 9 := by
    rw [hr]
    exact LayoutSettings.pageRoomy_default width metrics
  exact layout_confined h rulers hvalid hroomy hl hcv

/-- The labels of two words on a page that is too narrow for both. -/
def twoRowsRuler : Ruler Rat :=
  .ofSymbols { LayoutSettings.default with pageWidth := some 40 }
    ⟨[(.terminal, "a"), (.terminal, "b")]⟩

/-- Drawn with frames around the nodes. -/
def twoRowsCanvas : Canvas Rat where
  settings := twoRowsRuler.settings
  chart := { repeatedChoiceCanvas.chart with showBorders := true }
  label := repeatedChoiceCanvas.label
  frameColor := repeatedChoiceCanvas.frameColor

/-- The turn between the words is drawn on their page. -/
theorem layout_onPage_twoRows : (Build.compile {} true twoWords).1 = .ok twoWordsGraph ∧
    twoRowsRuler.settings = { LayoutSettings.default with pageWidth := some 40 } ∧
    twoRowsRuler.LabelsNonNeg ∧
    ∃ l, (twoWordsGraph.layout twoRowsRuler).1 = .ok l ∧ l.rows.length = 2 ∧
      ∀ mark ∈ twoRowsCanvas.page l.track, ∀ p ∈ mark.points,
        (0 ≤ p.x ∧ p.x ≤ l.size.width) ∧ 0 ≤ p.y ∧ p.y ≤ l.size.height := by
  have hg : (Build.compile {} true twoWords).1 = .ok twoWordsGraph := by cbv
  have hlabels : twoRowsRuler.LabelsNonNeg := Ruler.labelsNonNeg_ofSymbols _ _
  have hwidth (w : Rat) (hw : some 40 = some w) : 0 < w := Option.some.inj hw ▸ (by norm_num)
  have hsettings : twoRowsCanvas.settings = twoRowsRuler.settings := rfl
  have hrows : (twoWordsGraph.arranged twoRowsRuler).2.length = 2 := by decide +kernel
  obtain ⟨l, hok, hpage⟩ := layout_onPage hg [] rfl hwidth hlabels hsettings
  exact ⟨hg, rfl, hlabels, l, hok, (Graph.layout_ok hok).2.1 ▸ hrows, hpage⟩

end Railroad
