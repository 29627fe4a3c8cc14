/-
# Layouts that can always be drawn

In exact numbers no layout fails.  With settings that pass their check, and labels of any size that
is not negative, every box can be drawn (`Cell.Drawable`):

* its sizes are not negative and its track lies inside it, which is proved of each node from the
  rows of its levels (`Item.Fits.sound`);
* it stands on the page, no higher than the level it is on, which is proved along the levels from
  the outside in (`Track.placed_items`).

So the check at the end of a layout finds nothing (`layout_drawable`).

Exact numbers are needed since a sum that is rounded can come out below one of its parts.  At
`Float32` the check at the end is there for that, and what it lets through may be as much as the
tolerance off (`Cell.tolerance`).
-/
import Railroad.Proofs.Layout.Nesting

namespace Railroad

open Scalar

variable {α : Type} [Scalar α]

/-! ## 1. What else the boxes are given -/

/-- **What a ruler leaves open in the box of a node** is nothing: a wrap has at most a height, and
each branch of an alternation knows the size of the whole.  It is a matter of which parts of a box a
kind of node uses at all. -/
def Item.Framed : Item (Cell α) → Prop
  | .wrap c => c.box.SameSize (.ofSize c.box.size 0.0) ∧
      (c.box.hasHeight = true ∨ c.box.size.height = 0.0)
  | .choice branches => ∀ b ∈ branches.marks,
      b.box.group = branches.head.box.group ∧ b.box.between = Size.zero
  | _ => True

namespace Track

mutual

theorem between_sizedBranches (r : Ruler α) : ∀ bs : Branches Spot,
    ∀ b ∈ (sizedBranches r bs).marks, b.box.between = Size.zero
  | .last _ _ => by
    rw [sizedBranches]
    exact List.forall_mem_singleton.mpr rfl
  | .more _ _ others => by
    rw [sizedBranches]
    exact List.forall_mem_cons.mpr ⟨rfl, between_sizedBranches r others⟩

theorem items_framed (r : Ruler α) : ∀ t : Track Spot, ∀ item ∈ (t.sized r).items, item.Framed
  | .stop => List.forall_mem_nil _
  | .symbol _ rest | .epsilon _ rest => by
    rw [sized, items]
    exact List.forall_mem_cons.mpr ⟨trivial, items_framed r rest⟩
  | .wrap _ rest => by
    rw [sized, items]
    exact List.forall_mem_cons.mpr ⟨⟨.refl _, .inr rfl⟩, items_framed r rest⟩
  | .optional _ body rest | .iteration _ body rest => by
    rw [sized, items]
    exact List.forall_mem_cons.mpr
      ⟨trivial, List.forall_mem_append.mpr ⟨items_framed r body, items_framed r rest⟩⟩
  | .rerun _ body between rest => by
    rw [sized, items]
    exact List.forall_mem_cons.mpr ⟨trivial, List.forall_mem_append.mpr ⟨items_framed r body,
      List.forall_mem_append.mpr ⟨items_framed r between, items_framed r rest⟩⟩⟩
  | .choice branches rest => by
    rw [sized, items, branchItems_mapMarks]
    refine List.forall_mem_cons.mpr ⟨?_,
      List.forall_mem_append.mpr ⟨branchItems_framed r branches, items_framed r rest⟩⟩
    rw [Item.Framed, Branches.marks_mapMarks, Branches.head_mapMarks, List.forall_mem_map]
    exact fun b hb => ⟨rfl, between_sizedBranches r branches b hb⟩

theorem branchItems_framed (r : Ruler α) : ∀ bs : Branches Spot,
    ∀ item ∈ branchItems (sizedBranches r bs), item.Framed
  | .last _ body => by
    rw [sizedBranches]
    exact items_framed r body
  | .more _ body others => by
    rw [sizedBranches]
    exact List.forall_mem_append.mpr ⟨items_framed r body, branchItems_framed r others⟩

end

open frozenFrom

theorem framed_onPage {item : Item (Cell α)} (hitem : item.isWrap = false) (h : item.Framed) :
    (item.mapMark onPage).Framed := by
  cases item with
  | wrap _ => cases hitem
  | choice branches =>
    cases branches with
    | last b _ => exact List.forall_mem_singleton.mpr (h b (List.mem_singleton_self b))
    | more _ _ _ => exact List.forall_mem_cons.mpr (List.forall_mem_cons.mp h)
  | _ => trivial

theorem framed_frozenFrom {used : NodeId → Bool} (t : Track (Cell α)) :
    ∀ row : RowExtent α, (∀ item ∈ t.items, item.Framed) →
    ∀ item ∈ (t.frozenFrom used row).items, item.Framed := by
  induction t using row_induction with
  | stop => exact fun _ h => h
  | wrap c rest ih =>
    intro row h
    obtain ⟨⟨hsame, hheight⟩, hrest⟩ := List.forall_mem_cons.mp h
    rw [frozenFrom]
    split
    case isTrue hused =>
      have hh : lt 0.0 row.height = true := ((Bool.and_eq_true _ _).mp hused).2
      exact List.forall_mem_cons.mpr
        ⟨⟨⟨rfl, hsame.group, hsame.between, hsame.ascent⟩, .inl hh⟩, ih _ hrest⟩
    case isFalse =>
      exact List.forall_mem_cons.mpr
        ⟨⟨⟨rfl, hsame.group, hsame.between, hsame.ascent⟩, hheight⟩, ih _ hrest⟩
  | before item rest hitem _ ih =>
    intro row h
    obtain ⟨hframed, hinside, hrest⟩ := forall_items_before.mp h
    rw [frozenFrom_before hitem]
    refine forall_items_before.mpr ⟨framed_onPage hitem hframed, ?_, ih _ hrest⟩
    rwa [Item.levels_mapMark]

theorem framed_unplaced {item : Item (Cell α)} :
    (item.map Cell.unplaced).Framed ↔ item.Framed := by
  cases item with
  | wrap _ =>
    exact and_congr_left fun _ => ⟨fun h => ⟨h.size, h.group, h.between, h.ascent⟩,
      fun h => ⟨h.size, h.group, h.between, h.ascent⟩⟩
  | choice branches =>
    rw [Item.map, Item.Framed, marks_mapBranches, head_mapBranches, List.forall_mem_map]
    exact Iff.rfl
  | _ => exact Iff.rfl

theorem framed_placed {t : Track (Cell α)} (gap : Size α) (top : α) (row : RowExtent α)
    (h : ∀ item ∈ t.items, item.Framed) : ∀ item ∈ (t.placed gap top row).items, item.Framed := by
  have hsame : (∀ item ∈ ((t.placed gap top row).map Cell.unplaced).items, item.Framed) ↔
      ∀ item ∈ (t.map Cell.unplaced).items, item.Framed := by
    rw [unplaced_placed]
  simp only [items_map, List.forall_mem_map, framed_unplaced] at hsame
  exact hsame.mpr h

end Track

theorem Graph.framed_arranged (g : Graph) (r : Ruler α) :
    ∀ item ∈ (g.arranged r).1.items, item.Framed := by
  rw [arranged, arrange_eq]
  exact Track.framed_placed _ _ _ (Track.framed_frozenFrom _ _ (Track.items_framed r _))

/-! ## 2. Sizes -/

/-- Neither dimension is negative. -/
def Size.NonNeg (s : Size Rat) : Prop := 0 ≤ s.width ∧ 0 ≤ s.height

theorem Size.nonNeg_zero : (Size.zero : Size Rat).NonNeg :=
  ⟨Exact.zero_eq.ge, Exact.zero_eq.ge⟩

/-- **A node with sizes that are not negative,** and the track inside its box. -/
structure Cell.Sound (c : Cell Rat) : Prop where
  size : c.box.size.NonNeg
  group : c.box.group.NonNeg
  between : c.box.between.NonNeg
  ascent : 0 ≤ c.box.ascent
  within : c.box.ascent ≤ c.extent.height

/-- A node that takes no more room than its own box. -/
theorem Cell.sound_of_ofSize {c : Cell Rat} {size : Size Rat} {ascent : Rat}
    (hbox : c.box.SameSize (.ofSize size ascent)) (hextent : c.extent = c.box.size)
    (hsize : size.NonNeg) (hascent : 0 ≤ ascent) (hwithin : ascent ≤ size.height) : c.Sound where
  size := hbox.size ▸ hsize
  group := hbox.group ▸ Size.nonNeg_zero
  between := hbox.between ▸ Size.nonNeg_zero
  ascent := hbox.ascent ▸ hascent
  within := by
    rw [hextent, hbox.ascent, hbox.size]
    exact hwithin

/-- Rows below each other are as high as all of them together. -/
theorem Ruler.sum_le_stackedHeight {gap : Rat} (hgap : 0 ≤ gap) (heights : List Rat) :
    heights.sum ≤ stackedHeight gap heights := by
  cases heights with
  | nil => exact Exact.zero_eq.ge
  | cons height heights =>
    rw [stackedHeight_cons, List.sum_cons]
    have hsum : heights.sum ≤ (heights.map (gap + ·)).sum := by
      simpa using List.sum_le_sum fun h (_ : h ∈ heights) => le_add_of_nonneg_left (a := h) hgap
    linarith

namespace Item

variable {r : Ruler Rat} {c : Cell Rat} {body between : Track (Cell Rat)}
  {branches : Branches (Cell Rat)}

theorem Sized.sound_symbol (h : (symbol c).Sized r) (hextent : c.extent = c.box.size)
    (hs : r.settings.NonNeg) (hl : r.LabelsNonNeg) : c.Sound := by
  obtain ⟨hwidth, hheight, hascent⟩ := h.symbol_box hs hl
  have hgap := hs.gapHeight
  rw [h.size] at hwidth hheight hascent
  rw [h.ascent] at hascent
  refine Cell.sound_of_ofSize h hextent ⟨hwidth, hgap.trans hheight⟩ ?_ ?_
  · change 0 ≤ (r.symbolBox c.node).ascent
    linarith
  · change (r.symbolBox c.node).ascent ≤ (r.symbolBox c.node).size.height
    linarith

theorem Sized.sound_epsilon (h : (epsilon c).Sized r) (hextent : c.extent = c.box.size)
    (hs : r.settings.NonNeg) : c.Sound := by
  have hheight := add_nonneg r.settings.font.lineHeight_nonneg hs.gapHeight
  refine Cell.sound_of_ofSize h hextent ⟨hs.gapWidth, hheight⟩ ?_ ?_
  all_goals
    rw [Exact.two_eq]
    linarith

theorem sound_wrap (h : (wrap c).Sized r) (hframed : (wrap c).Framed)
    (hextent : c.extent = c.box.size) : c.Sound := by
  obtain ⟨hbox, hheight⟩ := hframed
  have hheight : 0 ≤ c.box.size.height := by
    rcases hheight with hh | hh
    · exact Exact.zero_eq ▸ le_of_lt ((Exact.lt_iff _ _).mp hh)
    · exact (hh.trans Exact.zero_eq).ge
  have hwidth : 0 ≤ c.box.size.width := (Eq.trans h Exact.zero_eq).ge
  refine Cell.sound_of_ofSize hbox hextent ⟨hwidth, hheight⟩ Exact.zero_eq.ge ?_
  rwa [Exact.zero_eq]

theorem Sized.sound_optional (h : (optional c body).Sized r) (hextent : c.extent = c.box.size)
    (hs : r.settings.NonNeg)
    (hbody : 0 ≤ (body.measure r.settings.componentGap.width).width) : c.Sound := by
  have hwidth := hs.gapWidth
  have hgap := hs.gapHeight
  have habove := body.ascent_nonneg r.settings.componentGap.width
  have hbelow := body.descent_nonneg r.settings.componentGap.width
  refine Cell.sound_of_ofSize h hextent ⟨?_, ?_⟩ ?_ ?_
  all_goals
    simp only [RowExtent.height, Exact.two_eq]
    linarith

theorem Sized.sound_iteration (h : (iteration c body).Sized r) (hextent : c.extent = c.box.size)
    (hs : r.settings.NonNeg)
    (hbody : 0 ≤ (body.measure r.settings.componentGap.width).width) : c.Sound := by
  have hwidth := hs.gapWidth
  have hheight := body.height_nonneg r.settings.componentGap.width
  have habove := add_nonneg r.settings.font.lineHeight_nonneg hs.gapHeight
  refine Cell.sound_of_ofSize h hextent ⟨?_, ?_⟩ ?_ ?_
  all_goals
    simp only [Exact.two_eq]
    linarith

theorem Sized.sound_rerun (h : (rerun c body between).Sized r) (hextent : c.extent = c.box.size)
    (hs : r.settings.NonNeg)
    (hbody : 0 ≤ (body.measure r.settings.componentGap.width).width)
    (hback : 0 ≤ (between.measure r.settings.componentGap.width).width) : c.Sound := by
  obtain ⟨hgroup, -, hascent, hheight, hwidth, -⟩ := h.rerun_box hs
  have hgap := hs.gapWidth
  have habove := body.ascent_nonneg r.settings.componentGap.width
  have hbelow := body.descent_nonneg r.settings.componentGap.width
  have hunder := between.height_nonneg r.settings.componentGap.width
  rw [RowExtent.height] at hheight
  constructor
  case size => exact ⟨by linarith, by linarith⟩
  case group =>
    rw [hgroup]
    exact ⟨hbody, add_nonneg habove hbelow⟩
  case between =>
    rw [h.between]
    cases between with
    | stop => exact Size.nonNeg_zero
    | _ => exact ⟨hback, hunder⟩
  case ascent => rwa [hascent]
  case within =>
    rw [hextent]
    linarith

/-- **An alternation is at least as high as all its branches together.** -/
theorem Sized.sum_heights_le (h : (choice branches).Sized r) (hs : r.settings.NonNeg) :
    (branches.marks.map (·.box.size.height)).sum ≤ branches.head.box.group.height := by
  have hheights : branches.marks.map (·.box.size.height)
      = (branches.marks.map (·.box.size)).map (·.height) := List.map_map.symm
  rw [h.1, hheights]
  exact Ruler.sum_le_stackedHeight hs.gapHeight _

/-- The branches of an alternation have sizes that are not negative. -/
theorem sound_choice (hproper : (choice branches).Proper (·.node.kind))
    (hsized : (choice branches).Sized r) (hframed : (choice branches).Framed)
    (hs : r.settings.NonNeg) (hwidth : ∀ level ∈ (choice branches).levels,
      0 ≤ (level.measure r.settings.componentGap.width).width) :
    ∀ c ∈ branches.marks, c.Sound := by
  have hgap := hs.gapWidth
  have hlevels (level : Cell Rat × Track (Cell Rat)) (hlevel : level ∈ branches.levels) :
      level.1.box.size.NonNeg := by
    rw [(hsized.2 level hlevel).1]
    exact ⟨hwidth level.2 (List.mem_map_of_mem hlevel), level.2.height_nonneg _⟩
  have hheights : ∀ height ∈ branches.marks.map (·.box.size.height), 0 ≤ height := by
    simp only [Track.marks_eq_levels, List.map_map, List.forall_mem_map]
    exact fun level hlevel => (hlevels level hlevel).2
  have hsum := hsized.sum_heights_le hs
  have hgroup : branches.head.box.group.NonNeg :=
    ⟨by linarith [hsized.choice_box.1], (List.sum_nonneg hheights).trans hsum⟩
  intro c hc
  obtain ⟨hsame, hbetween⟩ := hframed c hc
  have hmark := hc
  rw [Track.marks_eq_levels] at hmark
  obtain ⟨level, hlevel, rfl⟩ := List.mem_map.mp hmark
  obtain ⟨hsize, hascent⟩ := hsized.2 level hlevel
  have hrow := level.2.descent_nonneg r.settings.componentGap.width
  constructor
  case size => exact hlevels level hlevel
  case group => rwa [hsame]
  case between =>
    rw [hbetween]
    exact Size.nonNeg_zero
  case ascent =>
    rw [hascent]
    exact level.2.ascent_nonneg _
  case within =>
    -- The ascent is part of the height of the branch, and that of the height of the whole.
    have hheight : level.1.box.size.height ≤ branches.head.box.group.height :=
      (List.single_le_sum hheights _ (List.mem_map_of_mem hc)).trans hsum
    rw [Cell.extent_of_alternative (hproper level hlevel).1, hsame, hascent]
    rw [hsize] at hheight
    exact (le_add_of_nonneg_right hrow).trans hheight

/-- **Every node has sizes that are not negative,** if the rows of its levels do. -/
theorem Fits.sound {item : Item (Cell Rat)} (h : item.Fits r) (hframed : item.Framed)
    (hs : r.settings.NonNeg) (hl : r.LabelsNonNeg) (hlevels : ∀ level ∈ item.levels,
      0 ≤ (level.measure r.settings.componentGap.width).width) :
    ∀ c ∈ item.marks, c.Sound := by
  have hsized := h.sized
  have hextent := extent_mark h.proper
  cases item with
  | symbol c => exact List.forall_mem_singleton.mpr (hsized.sound_symbol hextent hs hl)
  | epsilon c => exact List.forall_mem_singleton.mpr (hsized.sound_epsilon hextent hs)
  | wrap c => exact List.forall_mem_singleton.mpr (sound_wrap hsized hframed hextent)
  | optional c body =>
    have hbody := hlevels body List.mem_cons_self
    exact List.forall_mem_singleton.mpr (hsized.sound_optional hextent hs hbody)
  | iteration c body =>
    have hbody := hlevels body List.mem_cons_self
    exact List.forall_mem_singleton.mpr (hsized.sound_iteration hextent hs hbody)
  | rerun c body between =>
    have hbody := hlevels body List.mem_cons_self
    have hback := hlevels between (List.mem_cons_of_mem _ List.mem_cons_self)
    exact List.forall_mem_singleton.mpr (hsized.sound_rerun hextent hs hbody hback)
  | choice branches => exact sound_choice h.proper hsized hframed hs hlevels

end Item

/-! ## 3. Heights on the page -/

/-- **A node at heights that are not negative,** with its track and its bottom below its top. -/
structure Cell.Placed (c : Cell Rat) : Prop where
  top : 0 ≤ c.box.top
  line : c.box.top ≤ c.box.line
  bottom : c.box.top ≤ c.box.bottom

/-- A node on a track that is no higher than the node reaches. -/
theorem Cell.Sound.placed {c : Cell Rat} {line : Rat} (h : c.Sound) (hline : c.onLine line = c)
    (hascent : c.box.ascent ≤ line) : c.Placed := by
  obtain ⟨hon, htop, hbottom⟩ := Cell.heights_of_onLine hline
  have habove := h.ascent
  have hwithin := h.within
  exact ⟨by linarith, by linarith, by linarith⟩

namespace Track

variable {gap : Size Rat}

/-- Where branches stand one below the other, so do their levels. -/
theorem Stacked.stands : ∀ {levels : List (Cell Rat × Track (Cell Rat))} {top : Rat},
    Stacked gap top levels → ∀ level ∈ levels,
    level.1.box.line = level.1.box.top + level.1.box.ascent ∧
      level.2.StandsAt gap level.1.box.top
  | [], _, _ => List.forall_mem_nil _
  | (c, body) :: others, top, ⟨⟨htop, hline, hstands⟩, hothers⟩ => by
    rw [← htop] at hline hstands
    exact List.forall_mem_cons.mpr ⟨⟨hline, hstands⟩, hothers.stands⟩

end Track

/-- **The branches of an alternation** are on the page if its head is, and so are their levels. -/
theorem Item.placed_choice {gap : Size Rat} {line : Rat} {branches : Branches (Cell Rat)}
    (h : (Item.choice branches).Stands gap line) (hgap : 0 ≤ gap.height)
    (hsound : ∀ c ∈ branches.marks, c.Sound) (hhead : branches.head.Placed) :
    (∀ c ∈ branches.marks, c.Placed) ∧
      ∀ level ∈ (Item.choice branches).levels, ∃ top, 0 ≤ top ∧ level.StandsAt gap top := by
  obtain ⟨hstacked, -, htail⟩ := h.stacked
  have hlevel (level : Cell Rat × Track (Cell Rat)) (hmem : level ∈ branches.levels) :
      level.1.Sound := hsound _ (Track.marks_eq_levels branches ▸ List.mem_map_of_mem hmem)
  have hbetween := hstacked.between hgap fun level hmem => (hlevel level hmem).size.2
  have htop (level : Cell Rat × Track (Cell Rat)) (hmem : level ∈ branches.levels) :
      0 ≤ level.1.box.top := hhead.top.trans (hbetween level hmem).1
  constructor
  · intro c hc
    rw [Track.marks_eq_levels] at hc
    obtain ⟨level, hmem, rfl⟩ := List.mem_map.mp hc
    obtain ⟨body, hlevels⟩ := Track.levels_eq_head_cons branches
    have hcases := hmem
    rw [hlevels] at hcases
    rcases List.mem_cons.mp hcases with rfl | hothers
    · exact hhead
    · have hline := (hstacked.stands level hmem).1
      have hbottom := htail level hothers
      have hsizes := hlevel level hmem
      exact ⟨htop level hmem, by linarith [hsizes.ascent], by linarith [hsizes.size.2]⟩
  · rw [Item.levels, List.forall_mem_map]
    exact fun level hmem => ⟨_, htop level hmem, (hstacked.stands level hmem).2⟩

/-- **A node on a track,** and the levels inside it: what they stand at is not negative. -/
theorem Item.placed_marks {gap : Size Rat} {line : Rat} {item : Item (Cell Rat)}
    (hitem : item.isWrap = false) (h : item.Stands gap line) (hgap : 0 ≤ gap.height)
    (hsound : ∀ c ∈ item.marks, c.Sound) (hascent : item.mark.box.ascent ≤ line) :
    (∀ c ∈ item.marks, c.Placed) ∧
      ∀ level ∈ item.levels, ∃ top, 0 ≤ top ∧ level.StandsAt gap top := by
  have hline := item.onLine_mark hitem h
  have hmark : item.mark.Placed := by
    refine Cell.Sound.placed (hsound _ ?_) hline hascent
    cases item with
    | choice branches => cases branches <;> exact List.mem_cons_self
    | _ => exact List.mem_cons_self
  have htop := hmark.top
  cases item with
  | wrap _ => cases hitem
  | symbol _ | epsilon _ => exact ⟨List.forall_mem_singleton.mpr hmark, List.forall_mem_nil _⟩
  | optional c body =>
    refine ⟨List.forall_mem_singleton.mpr hmark, List.forall_mem_singleton.mpr ⟨_, ?_, h.2⟩⟩
    change 0 ≤ c.box.top at htop
    rw [Exact.two_eq]
    linarith
  | iteration c body =>
    exact ⟨List.forall_mem_singleton.mpr hmark,
      List.forall_mem_singleton.mpr ⟨_, htop.trans hmark.line, h.2⟩⟩
  | rerun c body between =>
    have hgroup := (hsound c List.mem_cons_self).group.2
    exact ⟨List.forall_mem_singleton.mpr hmark, List.forall_mem_cons.mpr ⟨⟨_, htop, h.2.1⟩,
      List.forall_mem_singleton.mpr ⟨_, add_nonneg htop hgroup, h.2.2⟩⟩⟩
  | choice branches => exact placed_choice h hgap hsound hmark

namespace Track

variable {gap : Size Rat}

/-- **Where a level stands on the page, all its nodes do,** at any depth.  The row it begins with is
`row`, or has been in the making up to here. -/
theorem placed_items (hgap : 0 ≤ gap.height) (t : Track (Cell Rat)) :
    ∀ {top : Rat} {row : RowExtent Rat}, t.StandsFrom gap top row → 0 ≤ top →
    0 ≤ row.ascent → 0 ≤ row.height → row.Covers t.rowCells →
    (∀ item ∈ t.items, ∀ c ∈ item.marks, c.Sound) →
    ∀ item ∈ t.items, ∀ c ∈ item.marks, c.Placed := by
  induction t using row_induction with
  | stop => exact fun _ _ _ _ _ _ => List.forall_mem_nil _
  | wrap c rest ih =>
    intro top row h htop hascent hheight hcovers hsound
    have hrest := standsFrom_wrap h
    obtain ⟨hwrap, hsoundRest⟩ := List.forall_mem_cons.mp hsound
    rw [StandsFrom, placed_wrap, wrap.injEq] at h
    rw [rowCells] at hcovers
    refine List.forall_mem_cons.mpr ⟨List.forall_mem_singleton.mpr ?_, ?_⟩
    · have hsize := (List.forall_mem_singleton.mp hwrap).size.2
      change c.Placed
      rw [← h.1]
      exact ⟨htop, le_add_of_nonneg_right hascent, le_add_of_nonneg_right hsize⟩
    · split at hrest
      case isTrue =>
        exact ih hrest (add_nonneg htop hheight) (rest.ascent_nonneg _) (rest.height_nonneg _)
          (covers_measure _ rest) hsoundRest
      case isFalse hh =>
        rw [if_neg hh] at hcovers
        exact ih hrest htop hascent hheight hcovers hsoundRest
  | before item rest hitem inside ih =>
    intro top row h htop hascent hheight hcovers hsound
    obtain ⟨hstands, hrest⟩ := (standsFrom_before hitem).mp h
    obtain ⟨hmarks, hinside, hsoundRest⟩ := forall_items_before.mp hsound
    rw [rowCells_before hitem] at hcovers
    obtain ⟨hmark, hcoversRest⟩ := List.forall_mem_cons.mp hcovers
    obtain ⟨hplaced, hlevels⟩ := item.placed_marks hitem hstands hgap hmarks
      (le_add_of_nonneg_of_le htop hmark.1)
    refine forall_items_before.mpr ⟨hplaced, fun level hlevel => ?_,
      ih hrest htop hascent hheight hcoversRest hsoundRest⟩
    obtain ⟨_, hlevelTop, hlevelStands⟩ := hlevels level hlevel
    exact inside level hlevel hlevelStands hlevelTop (level.ascent_nonneg _)
      (level.height_nonneg _) (covers_measure _ level) (hinside level hlevel)

end Track

/-! ## 4. Layouts -/

/-- **A node that can be drawn:** none of its sizes and heights is negative, its track lies inside
its box, and the box does not end above its top.  It passes the check of a layout, which even allows
for some tolerance. -/
structure Cell.Drawable (c : Cell Rat) : Prop extends Cell.Sound c, Cell.Placed c

/-- **The check of a layout passes a node that can be drawn.** -/
theorem Cell.Drawable.misfit_eq_none {c : Cell Rat} (h : c.Drawable) : c.misfit? = none := by
  have husable (a : Rat) (ha : 0 ≤ a) : isUsable a = true := by
    rw [← Exact.zero_eq] at ha
    exact (Bool.and_eq_true _ _).mpr ⟨rfl, decide_eq_true ha⟩
  have hsize (s : Size Rat) (hs : s.NonNeg) : s.isUsable = true :=
    (Bool.and_eq_true _ _).mpr ⟨husable _ hs.1, husable _ hs.2⟩
  have htolerance : (0 : Rat) ≤ tolerance := by norm_num [tolerance]
  have hline := h.top.trans h.line
  have hbottom := h.top.trans h.bottom
  have hwithin : lt (c.extent.height + tolerance) c.box.ascent = false := by
    rw [← Bool.not_eq_true, Exact.lt_iff, not_lt]
    exact le_add_of_le_of_nonneg h.within htolerance
  have hupright : lt (c.box.bottom + tolerance) c.box.top = false := by
    rw [← Bool.not_eq_true, Exact.lt_iff, not_lt]
    exact le_add_of_le_of_nonneg h.bottom htolerance
  simp [misfit?, hsize _ h.size, hsize _ h.group, hsize _ h.between, husable _ h.ascent,
    husable _ h.top, husable _ hline, husable _ hbottom, hwithin, hupright]

/-- The nodes of a graph in the order of the array are those of its page. -/
theorem Graph.mem_page_of_mem_cells {g : Graph} {t : Track NodeId} (h : g.HasTree Exit.Similar t)
    {page : Track (Cell α)} (hpage : page.map Cell.toSpot = g.track) {c : Cell α}
    (hc : c ∈ g.cells page) : c ∈ page.toList := by
  have hids : (g.cells page).length ≤ g.nodes.size := by
    simpa [cells] using List.length_filterMap_le (l := List.range g.nodes.size) _
  obtain ⟨id, hid⟩ := List.getElem?_of_mem hc
  obtain ⟨hlt, -⟩ := List.getElem?_eq_some_iff.mp hid
  obtain ⟨c', hc', hmem, -, -⟩ := exists_cell h hpage
    (Array.getElem?_eq_getElem (hlt.trans_le hids))
  rwa [Option.some.inj (hid.symm.trans hc')]

/-- **Every layout with settings that pass their check can be drawn,** in exact numbers: for all
compiled graphs, whatever layouts they have been through, and labels of any size.  An alternation is
at least as high as all its branches together.

That is why a geometry error is always a matter of rounding or of numbers that have become too
large: in exact numbers there is none. -/
theorem layout_drawable {registry : Build.Registry} {collapsing : Bool} {p : Production} {g : Graph}
    (h : (Build.compile registry collapsing p).1 = .ok g) (rulers : List (Ruler Rat))
    {r : Ruler Rat} (hr : r.settings.validate = .ok ()) (hl : r.LabelsNonNeg) :
    let g' := g.afterLayouts rulers
    ∃ l, (g'.layout r).1 = .ok l ∧ (∀ c ∈ g'.laidOut r, c.Drawable) ∧
      ∀ branches, Item.choice branches ∈ l.track.items →
        (branches.marks.map (·.box.size.height)).sum ≤ branches.head.box.group.height := by
  intro g'
  obtain ⟨t, hbare⟩ := Build.bare_of_compile h
  obtain ⟨w, hw⟩ := (Wrapped.refl g t).afterLayouts hbare rulers
  have hpage : (g'.arranged r).1.LaidOut r := hw.laidOut hbare r
  have hs := LayoutSettings.nonNeg_of_validate hr
  have hmargin : 0 ≤ r.settings.margin.top :=
    LayoutSettings.measures_nonneg hr ("margin.top", _) (by simp [LayoutSettings.measures])
  have hsound : ∀ item ∈ (g'.arranged r).1.items, ∀ c ∈ item.marks, c.Sound := by
    intro item hitem
    refine (hpage.fits item hitem).sound (g'.framed_arranged r item hitem) hs hl fun level hlevel => ?_
    exact level.width_nonneg hs hl fun x hx =>
      hpage.fits x (Track.items_subset_of_mem_levels _ hitem hlevel hx)
  have hplaced := Track.placed_items hs.gapHeight (g'.arranged r).1 hpage.stands hmargin
    (Track.ascent_nonneg _ _) (Track.height_nonneg _ _) (Track.covers_measure _ _) hsound
  have hdrawable : ∀ c ∈ g'.laidOut r, c.Drawable := by
    intro c hc
    obtain ⟨w', h'⟩ := hw.exists_breakRows hbare r
    have hmem : c ∈ (g'.arranged r).1.toList :=
      Graph.mem_page_of_mem_cells (h'.hasTree hbare) (g'.spots_arranged r) hc
    obtain ⟨item, hitem, hmark⟩ := Track.mem_toList_iff.mp hmem
    exact ⟨hsound item hitem c hmark, hplaced item hitem c hmark⟩
  obtain ⟨l, hok⟩ := Graph.exists_layout_iff.mpr fun c hc => (hdrawable c hc).misfit_eq_none
  refine ⟨l, hok, hdrawable, fun branches hbranches => ?_⟩
  rw [(Graph.layout_ok hok).1] at hbranches
  exact (hpage.fits _ hbranches).sized.sum_heights_le hs

/-- The loop around a choice can be drawn. -/
theorem layout_drawable_repeatedChoice :
    (Build.compile {} true repeatedChoice).1 = .ok repeatedChoiceGraph ∧
      repeatedChoiceRuler.settings.validate = .ok () ∧ repeatedChoiceRuler.LabelsNonNeg ∧
      ∃ l, (repeatedChoiceGraph.layout repeatedChoiceRuler).1 = .ok l ∧
        ∀ c ∈ repeatedChoiceGraph.laidOut repeatedChoiceRuler, c.Drawable := by
  have hl : repeatedChoiceRuler.LabelsNonNeg := Ruler.labelsNonNeg_ofSymbols _ _
  obtain ⟨l, hok, hdrawable, -⟩ :=
    layout_drawable compile_repeatedChoice [] validate_repeatedChoiceRuler hl
  exact ⟨compile_repeatedChoice, validate_repeatedChoiceRuler, hl, l, hok, hdrawable⟩

end Railroad
