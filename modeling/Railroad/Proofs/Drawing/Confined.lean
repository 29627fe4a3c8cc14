/-
# Marks near their nodes

With measures that leave room for arcs and arrow heads everything that a node is drawn with is in
its box (`Canvas.confined_itemMarks`): its own rails, and what is drawn inside it.  Only the arrow
head in front of a symbol reaches out; the gap around the levels of a node is wide enough for it.

So what is drawn along a level is near the way of the walk (`Canvas.staysNear`): in the heights of
its row, and sideways no farther off than an arrow head is long.

The two statements depend on each other.  A node is drawn in its box if the levels inside it are
near their ways, and a level is near its way if its nodes are drawn in their boxes.  The induction
goes along levels with the levels inside included (`Track.item_induction`), and the gap around a
level is what pays for the arrow head that reaches out of it.
-/
import Mathlib
import Railroad.Proofs.Drawing.Apart
import Railroad.Proofs.Drawing.Rails

namespace Railroad

open Scalar

namespace Canvas

/-! ## 1. A node and what follows it -/

/-- **A node and what follows it stay in a region** that has room for each of its parts. -/
theorem confined_node {cv : Canvas Rat} {b : Brush Rat} {d : Direction} {c : Cell Rat}
    {across upright : Set Rat} {left cursor next : Rat} {marks : List (Primitive Rat)}
    {connected last : Bool} {rest : Rat → Drawn Rat}
    (hleft : left ∈ across) (hright : left + c.extent.width ∈ across)
    (htop : c.box.top ∈ upright) (hbottom : c.box.top + c.extent.height ∈ upright)
    (hline : c.box.line ∈ upright) (hcursor : cursor ∈ across)
    (hnext : next = if connected then
      cursor + d.sign * cv.settings.componentGap.width / 2.0 else cursor)
    (hto : next ∈ across) (hmarks : Confined across upright marks)
    (hclosing : last = true → c.box.onPage = true →
      Confined across upright (cv.closing b next c.box.line))
    (hrest : Confined across upright (rest next).marks) :
    Confined across upright (cv.node b d c left cursor marks connected last rest).marks := by
  have hframe : Confined across upright (cv.frame c left) := by
    unfold frame
    split
    · exact List.forall_mem_singleton.mpr (List.forall_mem_cons.mpr
        ⟨⟨hleft, htop⟩, List.forall_mem_singleton.mpr ⟨hright, hbottom⟩⟩)
    · exact .nil
  have hconnector : Confined across upright (if connected then
      [Canvas.line (b.override c.node.style) cursor c.box.line next c.box.line] else []) := by
    split
    · exact .line hcursor hline hto hline .nil
    · exact .nil
  have hending : Confined across upright
      (if last && c.box.onPage then cv.closing b next c.box.line else []) := by
    split
    case isTrue hlast =>
      obtain ⟨hlast, hpage⟩ := (Bool.and_eq_true _ _).mp hlast
      exact hclosing hlast hpage
    case isFalse => exact .nil
  rw [node, ← hnext]
  exact (((hframe.append hmarks).append hconnector).append hending).append hrest

/-! ## 2. Marks inside a node -/

/-- **What is drawn along a level stays near the way of the walk:** between any two heights that the
nodes of its row are between, and no farther off the ends of the way than an arrow head is long.
The heights are any, since a level inside a node has to keep within the node and not only within its
own row. -/
def StaysNear (cv : Canvas Rat) (gap : Rat) (level : Track (Cell Rat)) : Prop :=
  ∀ (b : Brush Rat) (d : Direction) (cursor left right top bottom : Rat),
    d.Within cursor (level.measure gap).width left right →
    (∀ c ∈ level.rowCells, top ≤ c.box.top ∧ c.box.bottom ≤ bottom) →
    Confined (Set.Icc (left - cv.settings.arrowSize) (right + cv.settings.arrowSize))
      (Set.Icc top bottom) (cv.track b d cursor level).marks

end Canvas

/-- The nodes of a level that lies between two heights are between them. -/
theorem Track.LiesIn.rowCells {gap line above below : Rat} {level : Track (Cell Rat)}
    (h : level.LiesIn gap line above below) :
    ∀ c ∈ level.rowCells, above ≤ c.box.top ∧ c.box.bottom ≤ below := fun c hc =>
  ⟨h.above_le.trans (h.onTrack c hc).2.1, (h.onTrack c hc).2.2.trans h.le_below⟩

/-- **The nodes in the levels of a node are inside it.** -/
theorem Item.Nests.rowCells {gap : Size Rat} {item : Item (Cell Rat)} (h : item.Nests gap) :
    ∀ level ∈ item.levels, ∀ c ∈ level.rowCells,
      item.mark.box.top ≤ c.box.top ∧ c.box.bottom ≤ item.mark.box.bottom := by
  cases item with
  | symbol _ | epsilon _ | wrap _ => exact List.forall_mem_nil _
  | optional c body =>
    have hlies : body.LiesIn gap.width c.box.line c.box.top c.box.bottom := h
    exact List.forall_mem_singleton.mpr hlies.rowCells
  | iteration c body =>
    obtain ⟨line, -, hlies⟩ := h
    exact List.forall_mem_singleton.mpr hlies.rowCells
  | rerun c body between =>
    obtain ⟨hlies, hback⟩ := h
    refine List.forall_mem_cons.mpr ⟨hlies.rowCells, List.forall_mem_singleton.mpr ?_⟩
    cases hstop : between.isStop with
    | true =>
      cases between with
      | stop => exact List.forall_mem_nil _
      | _ => cases hstop
    | false =>
      obtain ⟨line, -, hliesBack⟩ := hback between (Track.mem_present.mpr ⟨rfl, hstop⟩)
      have hbelow := body.rowTop_le_rowBottom gap.width c.box.line
      exact fun x hx => ⟨(hlies.above_le.trans hbelow).trans (hliesBack.rowCells x hx).1,
        (hliesBack.rowCells x hx).2⟩
  | choice branches =>
    exact List.forall_mem_map.mpr fun level hlevel => (h.1 level hlevel).2.rowCells

/-! ## 3. Tracks inside a node -/

/-- The track of a level that stands at a height. -/
theorem Track.lineOr_of_standsFrom {α : Type} [Scalar α] {gap : Size α} {top : α}
    {row : RowExtent α} {t : Track (Cell α)} (h : t.StandsFrom gap top row)
    (hpresent : t.isStop = false) (line : α) : t.lineOr line = top + row.ascent := by
  induction t using row_induction with
  | stop => cases hpresent
  | wrap c rest _ =>
    rw [StandsFrom, placed_wrap, wrap.injEq] at h
    exact (congrArg (·.box.line) h.1).symm
  | before item rest hitem _ _ =>
    have hline := item.onLine_mark hitem ((standsFrom_before hitem).mp h).1
    rw [← (Cell.heights_of_onLine hline).1]
    cases item <;> rfl

namespace Item

variable {r : Ruler Rat} {reach : Rat} {c : Cell Rat} {body between : Track (Cell Rat)}

/-- **The level of an iteration** is below its track by what the level reaches. -/
theorem Fits.line_iteration (h : (iteration c body).Fits r) (hs : r.settings.NonNeg)
    (hbody : (body.measure r.settings.componentGap.width).Reaches reach) :
    c.box.line + reach ≤ body.lineOr c.box.line ∧
      body.lineOr c.box.line + reach ≤ c.box.bottom := by
  have hextent : c.extent = c.box.size := extent_mark h.proper
  obtain ⟨hproper, hsized, line, hstands⟩ := h
  obtain ⟨hline, htop, hbottom⟩ := Cell.heights_of_onLine hstands.1
  have hheight := congrArg Size.height (hsized.iteration_box hs).1
  rw [Track.lineOr_of_standsFrom hstands.2 hproper.2.1]
  rw [hextent, hheight, RowExtent.height] at hbottom
  constructor
  · linarith [hbody.ascent]
  · linarith [hbody.descent]

/-- **What a rerun runs back over** is below its track by what the body reaches. -/
theorem Fits.line_rerun (h : (rerun c body between).Fits r) (hs : r.settings.NonNeg)
    (hbody : (body.measure r.settings.componentGap.width).Reaches reach)
    (hback : (between.measure r.settings.componentGap.width).Reaches reach)
    (hpresent : between.isStop = false) (hreach : 0 ≤ reach) :
    c.box.line + reach ≤ between.lineOr c.box.line ∧
      between.lineOr c.box.line + reach ≤ c.box.bottom := by
  have hextent : c.extent = c.box.size := extent_mark h.proper
  obtain ⟨hproper, hsized, line, hstands⟩ := h
  obtain ⟨hline, htop, hbottom⟩ := Cell.heights_of_onLine hstands.1
  obtain ⟨hgroup, -, hascent, hheight, -⟩ := hsized.rerun_box hs
  have hbodyHeight := congrArg Size.height hgroup
  rw [RowExtent.size, RowExtent.height] at hbodyHeight
  rw [RowExtent.height, RowExtent.height] at hheight
  rw [Track.lineOr_of_standsFrom hstands.2.2 hpresent, hbodyHeight]
  rw [hextent] at hbottom
  constructor
  · linarith [hbody.descent, hback.ascent]
  · linarith [hback.descent]

/-- **A bare way back** is below the track by what the body reaches. -/
theorem Fits.line_bare (h : (rerun c body .stop).Fits r)
    (hbody : (body.measure r.settings.componentGap.width).Reaches reach) :
    c.box.line + reach + r.settings.componentGap.height / 2 ≤ c.box.bottom := by
  have hextent : c.extent = c.box.size := extent_mark h.proper
  obtain ⟨hproper, hsized, line, hstands⟩ := h
  obtain ⟨hline, htop, hbottom⟩ := Cell.heights_of_onLine hstands.1
  have hascent := hsized.ascent
  have hheight := congrArg Size.height hsized.size
  simp only [Track.isStop, if_true, Ruler.rerunBox, Box.ofSize, RowExtent.height,
    Exact.two_eq] at hascent hheight
  rw [hextent, hheight] at hbottom
  linarith [hbody.descent]

/-- **The branches of an alternation** are apart by what they reach. -/
theorem Nests.lines_choice {gap : Size Rat} {branches : Branches (Cell Rat)}
    (h : (choice branches).Nests gap) (hgap : 0 ≤ gap.height)
    (hlevels : ∀ level ∈ branches.levels, (level.2.measure gap.width).Reaches reach) :
    (∀ level ∈ branches.levels, level.1.box.line
      ∈ Set.Icc (branches.head.box.top + reach) (branches.head.box.bottom - reach)) ∧
      ∀ level ∈ branches.levels.tail, branches.head.box.line + 2 * reach ≤ level.1.box.line := by
  obtain ⟨hlies, hchain⟩ := h
  constructor
  · intro level hlevel
    have hrow := hlevels level hlevel
    have habove := (hlies level hlevel).2.above_le
    have hbelow := (hlies level hlevel).2.le_below
    rw [Track.rowTop] at habove
    rw [Track.rowBottom] at hbelow
    exact ⟨by linarith [hrow.ascent], by linarith [hrow.descent]⟩
  · have hbelow : branches.levels.IsChain fun a b =>
        a.2.rowBottom gap.width a.1.box.line ≤ b.2.rowTop gap.width b.1.box.line :=
      hchain.imp fun a b h => by
        rw [h]
        exact le_add_of_nonneg_right hgap
    have hpairs := Packed.pairwise_below
      (fun level => level.2.rowTop_le_rowBottom gap.width level.1.box.line) hbelow
    obtain ⟨body, hcons⟩ := Track.levels_eq_head_cons branches
    have hhead := hlevels (branches.head, body) (hcons ▸ List.mem_cons_self)
    intro level hlevel
    have hrow := hlevels level (List.mem_of_mem_tail hlevel)
    rw [hcons] at hpairs
    have hapart := (List.pairwise_cons.mp hpairs).1 level hlevel
    rw [Track.rowBottom, Track.rowTop] at hapart
    linarith [hhead.descent, hrow.ascent]

end Item

/-! ## 4. Nodes -/

theorem LayoutSettings.Roomy.reach_nonneg {s : LayoutSettings Rat} {reach : Rat}
    (h : s.Roomy reach) : 0 ≤ reach := by
  linarith [h.arc, h.arc_le_reach]

namespace Canvas

variable {cv : Canvas Rat} {r : Ruler Rat} {reach left : Rat} {b : Brush Rat} {d : Direction}

/-- What is drawn inside a node stays in its box. -/
def KeepsInside (cv : Canvas Rat) (d : Direction) (left : Rat) (item : Item (Cell Rat)) : Prop :=
  ∀ w ∈ cv.insideWalks d left item, ∀ b : Brush Rat,
    Confined (Set.Icc left (left + item.room.width))
      (Set.Icc item.mark.box.top item.mark.box.bottom)
      (cv.track b w.direction w.cursor w.level).marks

/-- **The walks inside a node are drawn in its box:** the gap around the levels has room for the
arrow heads. -/
theorem keepsInside (hcv : cv.settings = r.settings) (hs : cv.settings.Roomy reach)
    {item : Item (Cell Rat)} (h : item.Fits r)
    (hwidth : ∀ level ∈ item.levels, 0 ≤ (level.measure r.settings.componentGap.width).width)
    (hnear : ∀ level ∈ item.levels, cv.StaysNear r.settings.componentGap.width level)
    (d : Direction) (left : Rat) : cv.KeepsInside d left item := by
  intro w hw b
  have hnonneg : r.settings.NonNeg := hcv ▸ hs.toNonNeg
  have harrow := hs.arrow_le_gap
  obtain ⟨hlevel, hwithin⟩ := within_gaps_of_mem_insideWalks hcv hnonneg h hwidth d left w hw
  have hcells := (h.nests hnonneg).rowCells w.level hlevel
  rw [Item.extent_mark h.proper] at hwithin
  refine (hnear w.level hlevel b _ _ _ _ _ _ hwithin hcells).mono (Set.Icc_subset_Icc ?_ ?_) le_rfl
  · rw [← hcv]
    linarith
  · rw [← hcv]
    linarith

theorem confined_symbolNode (hcv : cv.settings = r.settings) (hs : cv.settings.Roomy reach)
    (hl : r.LabelsNonNeg) {c : Cell Rat} (h : (Item.symbol c).Fits r) (hroom : c.Reaches reach) :
    Confined (Set.Icc (left - cv.settings.arrowSize)
        (left + c.box.size.width + cv.settings.arrowSize))
      (Set.Icc c.box.top c.box.bottom) (cv.itemMarks b d left (.symbol c)) := by
  obtain ⟨line, hstands⟩ := h.stands
  obtain ⟨hline, htop, hbottom⟩ := Cell.heights_of_onLine hstands
  obtain ⟨habove, -⟩ := hroom.heights hstands
  obtain ⟨hwidth, hheight, hascent⟩ := h.sized.symbol_box (hcv ▸ hs.toNonNeg) hl
  have hextent : c.extent = c.box.size := Item.extent_mark h.proper
  rw [hextent] at hbottom
  exact confined_symbol hs d hwidth (hcv ▸ hheight) (by linarith) (by linarith) habove

theorem confined_epsilonNode (hs : r.settings.NonNeg) {c : Cell Rat} (h : (Item.epsilon c).Fits r)
    (hroom : c.Reaches reach) (hreach : 0 ≤ reach) :
    Confined (Set.Icc left (left + c.box.size.width)) (Set.Icc c.box.top c.box.bottom)
      (cv.itemMarks b d left (.epsilon c)) := by
  obtain ⟨line, hstands⟩ := h.stands
  obtain ⟨habove, hbelow⟩ := hroom.heights hstands
  have hextent : c.extent = c.box.size := Item.extent_mark h.proper
  have hwidth : 0 ≤ c.extent.width := by
    rw [hextent, h.sized.size]
    exact hs.gapWidth
  rw [← hextent]
  exact confined_epsilon hwidth ⟨by linarith, by linarith⟩

theorem confined_optional (hcv : cv.settings = r.settings) (hs : cv.settings.Roomy reach)
    {c : Cell Rat} {body : Track (Cell Rat)} (h : (Item.optional c body).Fits r)
    (hroom : c.Reaches reach) (hbody : (body.measure r.settings.componentGap.width).Reaches reach)
    (hwidth : 0 ≤ (body.measure r.settings.componentGap.width).width)
    (hinside : cv.KeepsInside d left (.optional c body)) :
    Confined (Set.Icc left (left + c.box.size.width)) (Set.Icc c.box.top c.box.bottom)
      (cv.itemMarks b d left (.optional c body)) := by
  obtain ⟨line, hstands⟩ := h.stands
  obtain ⟨hline, htop, -⟩ := Cell.heights_of_onLine hstands.1
  obtain ⟨-, hbelow⟩ := hroom.heights hstands.1
  obtain ⟨hsize, hascent⟩ := h.sized.optional_box
  refine .append (confined_bypass hs ?_ ?_ hbelow) (hinside _ (List.mem_singleton_self _) b)
  · rw [hsize, hcv]
    linarith
  · rw [hcv]
    linarith [hbody.ascent]

theorem confined_iteration (hcv : cv.settings = r.settings) (hs : cv.settings.Roomy reach)
    {c : Cell Rat} {body : Track (Cell Rat)} (h : (Item.iteration c body).Fits r)
    (hroom : c.Reaches reach) (hbody : (body.measure r.settings.componentGap.width).Reaches reach)
    (hwidth : 0 ≤ (body.measure r.settings.componentGap.width).width)
    (hinside : cv.KeepsInside d left (.iteration c body)) :
    Confined (Set.Icc left (left + c.box.size.width)) (Set.Icc c.box.top c.box.bottom)
      (cv.itemMarks b d left (.iteration c body)) := by
  have hnonneg : r.settings.NonNeg := hcv ▸ hs.toNonNeg
  obtain ⟨line, hstands⟩ := h.stands
  obtain ⟨habove, -⟩ := hroom.heights hstands.1
  obtain ⟨hbodyLine, hbelow⟩ := h.line_iteration hnonneg hbody
  refine .append (confined_iterationRails hs ?_ habove hbodyLine hbelow)
    (hinside _ (List.mem_singleton_self _) b)
  rw [(h.sized.iteration_box hnonneg).1, hcv]
  linarith

/-- A level in the middle of a node lies between its ends. -/
theorem centred_mem {x width own : Rat} (hown : 0 ≤ own) (hle : own ≤ width) :
    x + (width - own) / 2.0 ∈ Set.Icc x (x + width) ∧
      x + (width - own) / 2.0 + own ∈ Set.Icc x (x + width) := by
  rw [Exact.two_eq]
  exact ⟨⟨by linarith, by linarith⟩, by linarith, by linarith⟩

/-- The levels of a rerun lie in the middle of it. -/
theorem centred_rerun {c : Cell Rat} {body between : Track (Cell Rat)}
    (h : (Item.rerun c body between).Sized r) (hs : r.settings.NonNeg)
    (hbody : 0 ≤ (body.measure r.settings.componentGap.width).width)
    (hback : 0 ≤ (between.measure r.settings.componentGap.width).width) (x : Rat) :
    let whole := Set.Icc x (x + c.box.size.width)
    (x + (c.box.size.width - c.box.group.width) / 2.0 ∈ whole ∧
      x + (c.box.size.width - c.box.group.width) / 2.0 + c.box.group.width ∈ whole) ∧
      x + (c.box.size.width - c.box.between.width) / 2.0 ∈ whole ∧
      x + (c.box.size.width - c.box.between.width) / 2.0 + c.box.between.width ∈ whole := by
  intro whole
  have hgap := hs.gapWidth
  obtain ⟨hgroup, hbetween, -, -, hbodyFits, hbackFits⟩ := h.rerun_box hs
  have hgroup : c.box.group.width = (body.measure r.settings.componentGap.width).width :=
    congrArg Size.width hgroup
  have hbackFits := hbackFits hbody
  exact ⟨centred_mem (by linarith) (by linarith), centred_mem (by linarith) (by linarith)⟩

/-- The way back of a rerun stays in its box, whether there is something on it or not. -/
theorem confined_back (hcv : cv.settings = r.settings) (hs : cv.settings.Roomy reach)
    {c : Cell Rat} {body between : Track (Cell Rat)} (h : (Item.rerun c body between).Fits r)
    (habove : c.box.top + reach ≤ c.box.line)
    (hbody : (body.measure r.settings.componentGap.width).Reaches reach)
    (hback : between.isStop = false →
      (between.measure r.settings.componentGap.width).Reaches reach)
    (hgaps : 2 * cv.settings.componentGap.width ≤ c.box.size.width) {backLeft backRight : Rat}
    (hleft : backLeft ∈ Set.Icc left (left + c.box.size.width))
    (hright : backRight ∈ Set.Icc left (left + c.box.size.width)) :
    Confined (Set.Icc left (left + c.box.size.width)) (Set.Icc c.box.top c.box.bottom)
      (if between.isStop then cv.bareRails b left c
        else cv.rerunRails b left c (between.lineOr c.box.line) backLeft backRight) := by
  cases hstop : between.isStop with
  | true =>
    cases between with
    | stop =>
      refine confined_bareRails hs hgaps habove ?_
      rw [hcv]
      exact h.line_bare hbody
    | _ => cases hstop
  | false =>
    obtain ⟨hupper, hlower⟩ :=
      h.line_rerun (hcv ▸ hs.toNonNeg) hbody (hback hstop) hstop hs.reach_nonneg
    exact confined_rerunRails hs hgaps habove hupper hlower hleft hright

theorem confined_rerun (hcv : cv.settings = r.settings) (hs : cv.settings.Roomy reach)
    {c : Cell Rat} {body between : Track (Cell Rat)} (h : (Item.rerun c body between).Fits r)
    (hroom : c.Reaches reach) (hbody : (body.measure r.settings.componentGap.width).Reaches reach)
    (hback : between.isStop = false →
      (between.measure r.settings.componentGap.width).Reaches reach)
    (hwidth : ∀ level ∈ [body, between],
      0 ≤ (level.measure r.settings.componentGap.width).width)
    (hinside : cv.KeepsInside d left (.rerun c body between)) :
    Confined (Set.Icc left (left + c.box.size.width)) (Set.Icc c.box.top c.box.bottom)
      (cv.itemMarks b d left (.rerun c body between)) := by
  have hnonneg : r.settings.NonNeg := hcv ▸ hs.toNonNeg
  have hgap := hnonneg.gapWidth
  have hreach := hs.reach_nonneg
  obtain ⟨line, hstands⟩ := h.stands
  obtain ⟨habove, hbelow⟩ := hroom.heights hstands.1
  obtain ⟨hbodyWidth, hothers⟩ := List.forall_mem_cons.mp hwidth
  have hbackWidth := List.forall_mem_singleton.mp hothers
  obtain ⟨hbodyMarks, hbackMarks⟩ := List.forall_mem_cons.mp hinside
  obtain ⟨⟨hbodyLeft, hbodyRight⟩, hbackLeft, hbackRight⟩ :=
    centred_rerun h.sized hnonneg hbodyWidth hbackWidth left
  obtain ⟨-, -, -, -, hfits, -⟩ := h.sized.rerun_box hnonneg
  have hgaps : 2 * cv.settings.componentGap.width ≤ c.box.size.width := by
    rw [hcv]
    linarith
  have hrails := confined_back (b := b) hcv hs h habove hbody hback hgaps hbackLeft hbackRight
  refine .line ?_ ?_ hbodyLeft ?_ <| .line hbodyRight ?_ ?_ ?_ <|
    .append (.append (hbodyMarks b) hrails) (List.forall_mem_singleton.mp hbackMarks b)
  all_goals constructor <;> linarith

/-- A branch and its track stay in the box of the alternation, and so do the turns into it, unless
it is the `first`. -/
theorem confined_branch (hs : cv.settings.Roomy reach) {x width top bottom : Rat}
    (hwidth : 2 * cv.settings.componentGap.width ≤ width) {c : Cell Rat} {first : Bool}
    (hline : c.box.line ∈ Set.Icc top bottom)
    (hfits : 0 ≤ c.box.size.width ∧ c.box.size.width ≤ width)
    (hturn : first = false → top + cv.settings.arcSize ≤ c.box.line) {body : List (Primitive Rat)}
    (hbody : Confined (Set.Icc x (x + width)) (Set.Icc top bottom) body) :
    let left := x + (width - c.box.size.width) / 2.0
    Confined (Set.Icc x (x + width)) (Set.Icc top bottom)
      ((if first then [] else cv.branchTurns b x width c) ++
        cv.branchTrack b x width c left (left + c.box.size.width) ++ body) := by
  intro left
  obtain ⟨hleft, hright⟩ : _ ∧ _ := centred_mem (x := x) hfits.1 hfits.2
  refine .append (.append ?_ (confined_branchTrack hs hwidth hline hleft hright)) hbody
  split
  case isTrue => exact .nil
  case isFalse hfirst =>
    exact confined_branchTurns hs hwidth ⟨hturn (Bool.eq_false_iff.mpr hfirst), hline.2⟩

theorem confined_branchMarks (hs : cv.settings.Roomy reach) {x width top bottom : Rat}
    (hwidth : 2 * cv.settings.componentGap.width ≤ width) :
    ∀ {branches : Branches (Cell Rat)} {b : Brush Rat} {first : Bool},
    (∀ level ∈ branches.levels, level.1.box.line ∈ Set.Icc top bottom ∧
      (0 ≤ level.1.box.size.width ∧ level.1.box.size.width ≤ width) ∧ ∀ b : Brush Rat,
        Confined (Set.Icc x (x + width)) (Set.Icc top bottom) (cv.track b d
          (centred d x width level.1.box.size.width level.2).cursor level.2).marks) →
    (first = false → top + cv.settings.arcSize ≤ branches.head.box.line) →
    (∀ level ∈ branches.levels.tail, top + cv.settings.arcSize ≤ level.1.box.line) →
    Confined (Set.Icc x (x + width)) (Set.Icc top bottom)
      (cv.branchMarks b d x width first branches)
  | .last c body, b, first, hlevels, hfirst, _ => by
    obtain ⟨hline, hfits, hbody⟩ := List.forall_mem_singleton.mp hlevels
    rw [branchMarks]
    exact confined_branch hs hwidth hline hfits hfirst (hbody _)
  | .more c body others, b, first, hlevels, hfirst, hlower => by
    obtain ⟨⟨hline, hfits, hbody⟩, hothers⟩ := List.forall_mem_cons.mp hlevels
    obtain ⟨other, hcons⟩ := Track.levels_eq_head_cons others
    have hlower : ∀ level ∈ others.levels, top + cv.settings.arcSize ≤ level.1.box.line := hlower
    rw [branchMarks]
    refine .append (confined_branch hs hwidth hline hfits hfirst (hbody _))
      (confined_branchMarks hs hwidth hothers (fun _ => ?_) fun level hlevel => ?_)
    · exact hlower (others.head, other) (hcons ▸ List.mem_cons_self)
    · exact hlower level (List.mem_of_mem_tail hlevel)

theorem confined_choice (hcv : cv.settings = r.settings) (hs : cv.settings.Roomy reach)
    {branches : Branches (Cell Rat)} (h : (Item.choice branches).Fits r)
    (hlevels : ∀ level ∈ branches.levels,
      (level.2.measure r.settings.componentGap.width).Reaches reach)
    (hwidth : ∀ level ∈ branches.levels,
      0 ≤ (level.2.measure r.settings.componentGap.width).width)
    (hinside : cv.KeepsInside d left (.choice branches)) :
    Confined (Set.Icc left (left + branches.head.box.group.width))
      (Set.Icc branches.head.box.top branches.head.box.bottom)
      (cv.itemMarks b d left (.choice branches)) := by
  have hnonneg : r.settings.NonNeg := hcv ▸ hs.toNonNeg
  have hgap := hnonneg.gapWidth
  have hreach := hs.reach_nonneg
  have harc := hs.arc_le_reach
  have hextent : branches.head.extent = branches.head.box.group := Item.extent_mark h.proper
  obtain ⟨hgaps, hbranches⟩ := h.sized.choice_box
  obtain ⟨hlines, hlower⟩ := (h.nests hnonneg).lines_choice hnonneg.gapHeight hlevels
  obtain ⟨body, hcons⟩ := Track.levels_eq_head_cons branches
  have hhead := hlines (branches.head, body) (hcons ▸ List.mem_cons_self)
  have hgroup : 2 * cv.settings.componentGap.width ≤ branches.head.extent.width := by
    rw [hextent, hcv]
    linarith
  rw [← hextent] at hbranches ⊢
  refine .append (confined_choiceRails hs hgroup hhead fun level hlevel => ?_)
    (confined_branchMarks hs hgroup (fun level hlevel => ?_) (fun hfirst => by cases hfirst)
      fun level hlevel => ?_)
  · exact ⟨hlower level hlevel, (hlines level (List.mem_of_mem_tail hlevel)).2⟩
  · have hlevelWidth : level.1.box.size.width
        = (level.2.measure r.settings.componentGap.width).width := by
      rw [(h.sized.2 level hlevel).1]
      rfl
    obtain ⟨habove, hbelow⟩ := hlines level hlevel
    refine ⟨⟨by linarith, by linarith⟩, ⟨(hwidth level hlevel).trans hlevelWidth.ge, ?_⟩, ?_⟩
    · linarith [hbranches level hlevel]
    · rw [hextent]
      have hwalk := hinside _ (List.mem_map_of_mem hlevel)
      rw [hextent] at hwalk
      exact hwalk
  · linarith [hlower level hlevel, hhead.1]

/-- **Everything that a node is drawn with is in its box,** but for arrow heads that are no farther
off than they are long. -/
theorem confined_itemMarks (hcv : cv.settings = r.settings) (hs : cv.settings.Roomy reach)
    (hl : r.LabelsNonNeg) {item : Item (Cell Rat)} (hitem : item.isWrap = false) (h : item.Fits r)
    (hlevels : ∀ level ∈ item.levels, ∀ x ∈ level.items, x.Fits r)
    (hinside : cv.KeepsInside d left item) :
    Confined (Set.Icc (left - cv.settings.arrowSize)
        (left + item.room.width + cv.settings.arrowSize))
      (Set.Icc item.mark.box.top item.mark.box.bottom) (cv.itemMarks b d left item) := by
  have harrow := hs.arrow
  have hleaves : r.settings.LeavesRoom reach := hcv ▸ hs.toLeavesRoom
  have hreaches (level : Track (Cell Rat)) (hlevel : level ∈ item.levels)
      (howned : level.IsOwned) := howned.reaches hleaves hl (hlevels level hlevel)
  have hwidth (level : Track (Cell Rat)) (hlevel : level ∈ item.levels) :=
    level.width_nonneg hleaves.toNonNeg hl (hlevels level hlevel)
  have hroom := h.reaches hitem hleaves hl hreaches
  -- All nodes but symbols keep to their box.
  have hbox (hmarks : Confined (Set.Icc left (left + item.room.width))
      (Set.Icc item.mark.box.top item.mark.box.bottom) (cv.itemMarks b d left item)) :=
    hmarks.mono (Set.Icc_subset_Icc (sub_le_self left harrow) (le_add_of_nonneg_right harrow))
      (le_refl (Set.Icc item.mark.box.top item.mark.box.bottom))
  cases item with
  | wrap _ => cases hitem
  | symbol c => exact confined_symbolNode hcv hs hl h hroom
  | epsilon c => exact hbox (confined_epsilonNode hleaves.toNonNeg h hroom hs.reach_nonneg)
  | optional c body =>
    have hbody := List.mem_singleton_self body
    exact hbox (confined_optional hcv hs h hroom (hreaches body hbody h.proper.2)
      (hwidth body hbody) hinside)
  | iteration c body =>
    have hbody := List.mem_singleton_self body
    exact hbox (confined_iteration hcv hs h hroom (hreaches body hbody h.proper.2)
      (hwidth body hbody) hinside)
  | rerun c body between =>
    have hback := List.mem_cons_of_mem body (List.mem_singleton_self between)
    exact hbox (confined_rerun hcv hs h hroom (hreaches body List.mem_cons_self h.proper.2.1)
      (fun hstop => hreaches between hback ⟨hstop, h.proper.2.2⟩) hwidth hinside)
  | choice branches =>
    exact hbox (confined_choice hcv hs h
      (fun level hlevel => hreaches _ (List.mem_map_of_mem hlevel) (h.proper level hlevel).2)
      (fun level hlevel => hwidth _ (List.mem_map_of_mem hlevel)) hinside)

end Canvas

/-! ## 5. Levels -/

namespace Direction

/-- The rest of a way stays where the whole of it does. -/
theorem Within.go {d : Direction} {cursor gone way left right : Rat}
    (h : d.Within cursor (gone + way) left right) (hgone : 0 ≤ gone) :
    d.Within (d.go cursor gone) way left right := by
  cases d with
  | forward =>
    obtain ⟨hleft, hright⟩ := h
    exact ⟨by simp only [Direction.go]; linarith, by simp only [Direction.go]; linarith⟩
  | reverse =>
    obtain ⟨hleft, hright⟩ := h
    exact ⟨by simp only [Direction.go]; linarith, by simp only [Direction.go]; linarith⟩

/-- A node on the way is where the way is. -/
theorem Within.leftEnd {d : Direction} {cursor way left right : Rat} {c : Cell Rat}
    (h : d.Within cursor way left right) (hle : c.extent.width ≤ way) :
    left ≤ Canvas.leftEnd d cursor c ∧ Canvas.leftEnd d cursor c + c.extent.width ≤ right := by
  cases d with
  | forward =>
    obtain ⟨hleft, hright⟩ := h
    exact ⟨hleft, by simp only [Canvas.leftEnd]; linarith⟩
  | reverse =>
    obtain ⟨hleft, hright⟩ := h
    exact ⟨by simp only [Canvas.leftEnd]; linarith, by simp only [Canvas.leftEnd]; linarith⟩

end Direction

namespace Canvas

variable {cv : Canvas Rat} {r : Ruler Rat} {reach : Rat}

/-- **A node of a level and what follows it** stay in a region if the box of the node does, with
room for an arrow head on either side. -/
theorem confined_before (hcv : cv.settings = r.settings) (hs : cv.settings.Roomy reach)
    (hl : r.LabelsNonNeg) {item : Item (Cell Rat)} {rest : Track (Cell Rat)}
    (hitem : item.isWrap = false) (h : item.Fits r)
    (hlevels : ∀ level ∈ item.levels, ∀ x ∈ level.items, x.Fits r)
    (hnear : ∀ level ∈ item.levels, cv.StaysNear r.settings.componentGap.width level)
    {across upright : Set Rat} {b : Brush Rat} {d : Direction} {cursor : Rat}
    (hacross : Set.Icc (leftEnd d cursor item.mark - cv.settings.arrowSize)
      (leftEnd d cursor item.mark + item.mark.extent.width + cv.settings.arrowSize) ⊆ across)
    (hupright : Set.Icc item.mark.box.top item.mark.box.bottom ⊆ upright)
    (hnext : cv.onward d cursor rest item ∈ across)
    (hclosing : rest.isStop = true → item.mark.box.onPage = true → Confined across upright
      (cv.closing b (cv.onward d cursor rest item) item.mark.box.line))
    (hrest : Confined across upright (cv.track b d (cv.onward d cursor rest item) rest).marks) :
    Confined across upright (cv.track b d cursor (item.before rest)).marks := by
  have hleaves : r.settings.LeavesRoom reach := hcv ▸ hs.toLeavesRoom
  have harrow := hs.arrow
  have hreach := hs.reach_nonneg
  have hinside (level : Track (Cell Rat)) (hlevel : level ∈ item.levels) :=
    level.width_nonneg hleaves.toNonNeg hl (hlevels level hlevel)
  have hwidth := h.width_nonneg hleaves.toNonNeg hl hinside
  have hmarks := confined_itemMarks (b := b.override item.mark.node.style) hcv hs hl hitem h hlevels
    (keepsInside hcv hs h hinside hnear d (leftEnd d cursor item.mark))
  obtain ⟨line, hstands⟩ := h.stands
  have hline := item.onLine_mark hitem hstands
  obtain ⟨habove, hbelow⟩ := h.line_mem hitem hleaves hl hlevels
  obtain ⟨-, -, hbottom⟩ := Cell.heights_of_onLine hline
  rw [← Item.extent_mark h.proper] at hmarks
  have honward := cv.onward_eq_past d cursor rest item
  rw [exit_eq hitem] at honward
  rw [track_before, content_eq hitem, exit_eq hitem]
  refine confined_node ?_ ?_ ?_ ?_ ?_ ?_ honward hnext (hmarks.mono hacross hupright) hclosing hrest
  · exact hacross ⟨by linarith, by linarith⟩
  · exact hacross ⟨by linarith, by linarith⟩
  · exact hupright ⟨by linarith, by linarith⟩
  · exact hupright ⟨by linarith, by linarith⟩
  · exact hupright ⟨by linarith, by linarith⟩
  · refine hacross ?_
    cases d with
    | forward => exact ⟨by simp only [behind]; linarith, by simp only [behind]; linarith⟩
    | reverse => exact ⟨by simp only [behind]; linarith, by simp only [behind]; linarith⟩

/-- **What is drawn along a level inside a node stays near the way of the walk,** whatever is inside
its nodes. -/
theorem staysNear (hcv : cv.settings = r.settings) (hs : cv.settings.Roomy reach)
    (hl : r.LabelsNonNeg) (t : Track (Cell Rat)) : (∀ item ∈ t.items, item.Fits r) →
    (∀ c ∈ t.chain, c.box.onPage = false) →
    (t.Inside fun level => ∀ c ∈ level.chain, c.box.onPage = false) → t.WrapFree →
    cv.StaysNear r.settings.componentGap.width t := by
  have hleaves : r.settings.LeavesRoom reach := hcv ▸ hs.toLeavesRoom
  induction t using Track.item_induction with
  | stop => exact fun _ _ _ _ _ _ _ _ _ _ _ _ _ => .nil
  | before item rest inside ih =>
    intro hfits hchain hinner hfree b d cursor left right top bottom hwithin hcells
    obtain ⟨hitem, hrestFree⟩ := Track.wrapFree_before hfree
    obtain ⟨h, hlevels, hrest⟩ := Track.forall_items_before.mp hfits
    obtain ⟨hlevelsOff, hlevelsInner, hrestInner⟩ := Track.forall_items_before.mp hinner
    rw [Track.chain_before] at hchain
    obtain ⟨hoff, hrestOff⟩ := List.forall_mem_cons.mp hchain
    rw [Track.rowCells_before hitem] at hcells
    obtain ⟨⟨htop, hbottom⟩, hrestCells⟩ := List.forall_mem_cons.mp hcells
    rw [Track.width_before hitem] at hwithin
    -- What is inside the node is drawn near ways that keep a gap away from its ends.
    have hnear (level : Track (Cell Rat)) (hlevel : level ∈ item.levels) :=
      inside level hlevel (hlevels level hlevel) (hlevelsOff level hlevel)
        (hlevelsInner level hlevel) (h.proper.wrapFree level hlevel)
    have hwidth := h.width_nonneg hleaves.toNonNeg hl fun level hlevel =>
      level.width_nonneg hleaves.toNonNeg hl (hlevels level hlevel)
    have hconnector := item.connector_nonneg hleaves.gapWidth rest
    have hrestWidth := rest.width_nonneg hleaves.toNonNeg hl hrest
    obtain ⟨hleft, hright⟩ := hwithin.leftEnd (c := item.mark) (by linarith)
    have harrow := hs.arrow
    have honward := onward_eq hcv hitem d cursor rest
    refine confined_before hcv hs hl hitem h hlevels hnear (Set.Icc_subset_Icc ?_ ?_)
      (Set.Icc_subset_Icc htop hbottom) ?_ (fun _ hpage => ?_) ?_
    · linarith
    · linarith
    · obtain ⟨hfrom, hto⟩ := hwithin.go_mem (add_nonneg hwidth hconnector) (by linarith)
      rw [honward]
      exact ⟨by linarith, by linarith⟩
    · rw [hoff] at hpage
      cases hpage
    · rw [honward]
      exact ih hrest hrestOff hrestInner hrestFree b d _ _ _ _ _
        (hwithin.go (add_nonneg hwidth hconnector)) hrestCells

end Canvas

end Railroad
