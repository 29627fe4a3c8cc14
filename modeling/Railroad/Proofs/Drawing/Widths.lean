/-
# The width of a walk

The layout adds up widths from the inside out, and the drawing moves a cursor along.  In exact
numbers both come to the same:

* a walk along a level without breaks goes as far as the row of the level is wide, to the right or
  to the left (`cursor_track`);
* the walks inside a node stay within the room of the node (`within_of_mem_insideWalks`), and so do
  all places that they come by (`mem_steps_within`);
* on a page every row begins at the left margin and goes as far as it is wide (`steps_rows`).

The layout knows widths and no places, and the walk knows places and no widths.  They meet in one
equation for each node: behind it the cursor has moved by what the node adds to its row
(`Canvas.onward_eq`).  Everything else follows by adding these up along a level.
-/
import Mathlib
import Railroad.Graph.Printer
import Railroad.Proofs.Drawing.Walks
import Railroad.Proofs.Layout.Nesting

namespace Railroad

open Scalar

/-! ## 1. Ways to go -/

namespace Direction

@[simp] theorem sign_forward : (forward.sign : Rat) = 1 := by
  norm_num [sign]

@[simp] theorem sign_reverse : (reverse.sign : Rat) = -1 := by
  norm_num [sign]

/-- Where one gets to from a point by going some way in a direction. -/
def go (d : Direction) (cursor way : Rat) : Rat :=
  match d with
  | .forward => cursor + way
  | .reverse => cursor - way

@[simp] theorem go_zero (d : Direction) (cursor : Rat) : d.go cursor 0 = cursor := by
  cases d with
  | forward => exact add_zero cursor
  | reverse => exact sub_zero cursor

theorem go_go (d : Direction) (cursor a b : Rat) :
    d.go (d.go cursor a) b = d.go cursor (a + b) := by
  cases d with
  | forward => exact add_assoc cursor a b
  | reverse => exact sub_sub cursor a b

/-- **Going some way in a direction stays between two points.**  It is the same for both directions,
so most lemmas about walks are stated once. -/
def Within (d : Direction) (cursor way left right : Rat) : Prop :=
  match d with
  | .forward => left ≤ cursor ∧ cursor + way ≤ right
  | .reverse => left ≤ cursor - way ∧ cursor ≤ right

/-- A way that begins at one of two points and is as long as they are apart. -/
theorem within_start (d : Direction) {left' right' way left right : Rat}
    (hway : left' + way = right') (hleft : left ≤ left') (hright : right' ≤ right) :
    d.Within (Canvas.start d left' right') way left right := by
  subst hway
  cases d with
  | forward => exact ⟨hleft, hright⟩
  | reverse => exact ⟨hleft.trans (le_of_eq (add_sub_cancel_right left' way).symm), hright⟩

theorem Within.mono {d : Direction} {cursor way left right left' right' : Rat}
    (h : d.Within cursor way left right) (hleft : left' ≤ left) (hright : right ≤ right') :
    d.Within cursor way left' right' := by
  cases d with
  | forward => exact ⟨hleft.trans h.1, h.2.trans hright⟩
  | reverse => exact ⟨hleft.trans h.1, h.2.trans hright⟩

/-- Part of the way stays there too. -/
theorem Within.go_mem {d : Direction} {cursor way left right part : Rat}
    (h : d.Within cursor way left right) (hpart : 0 ≤ part) (hle : part ≤ way) :
    d.go cursor part ∈ Set.Icc left right := by
  cases d with
  | forward =>
    obtain ⟨hleft, hright⟩ := h
    exact ⟨by simp only [go]; linarith, by simp only [go]; linarith⟩
  | reverse =>
    obtain ⟨hleft, hright⟩ := h
    exact ⟨by simp only [go]; linarith, by simp only [go]; linarith⟩

end Direction

namespace Canvas

variable {cv : Canvas Rat} {r : Ruler Rat}

/-! ## 2. Walks without breaks -/

theorem behind_leftEnd (d : Direction) (cursor : Rat) (c : Cell Rat) :
    behind d (leftEnd d cursor c) c = d.go cursor c.extent.width := by
  cases d <;> rfl

/-- **Behind a node** the walk goes on as far as the node moves its row on. -/
theorem onward_eq (hcv : cv.settings = r.settings) {item : Item (Cell Rat)}
    (hitem : item.isWrap = false) (d : Direction) (cursor : Rat) (rest : Track (Cell Rat)) :
    cv.onward d cursor rest item = d.go cursor
      (item.mark.extent.width + item.connector r.settings.componentGap.width rest) := by
  cases item with
  | wrap _ => cases hitem
  | symbol c =>
    rw [onward, behind_leftEnd, Item.connector, Track.connector, ← Direction.go_go, hcv]
    split
    · cases d with
      | forward => simp only [Direction.go, Direction.sign_forward, one_mul]; rfl
      | reverse =>
        simp only [Direction.go, Direction.sign_reverse, Exact.two_eq, Item.mark]
        ring
    · rw [Exact.zero_eq, Direction.go_zero]
      rfl
  | _ => simp only [onward, behind_leftEnd, Item.connector, Exact.zero_eq, add_zero]

/-- A wrap that breaks nothing does not move the walk on. -/
theorem onward_wrap {c : Cell Rat} (hc : c.box.hasHeight = false) (h : (Item.wrap c).Fits r)
    (d : Direction) (cursor : Rat) (rest : Track (Cell Rat)) :
    cv.onward d cursor rest (.wrap c) = cursor := by
  have hwidth : c.extent.width = 0 := by
    have hextent := Item.extent_mark h.proper
    change c.extent = c.box.size at hextent
    rw [hextent, show c.box.size.width = 0.0 from h.sized, Exact.zero_eq]
  rw [onward, hc, Bool.and_false, Bool.false_and, if_neg Bool.false_ne_true, behind_leftEnd, hwidth,
    Direction.go_zero]

/-- From a wrap that breaks nothing the walk goes on where it is. -/
theorem steps_wrap {c : Cell Rat} (hc : ¬c.box.hasHeight = true) (h : (Item.wrap c).Fits r)
    (d : Direction) (cursor : Rat) (rest : Track (Cell Rat)) :
    cv.steps d cursor (.wrap c rest) = (cursor, .wrap c rest) :: cv.steps d cursor rest := by
  rw [steps, onward_wrap (Bool.eq_false_iff.mpr hc) h]

/-- A walk comes by the place where it begins. -/
theorem mem_steps_start (d : Direction) (cursor : Rat) (t : Track (Cell Rat)) :
    (cursor, t) ∈ cv.steps d cursor t := by
  cases t <;> exact List.mem_cons_self

/-- **A row goes as far as it is wide.** -/
theorem mem_steps_rowEnd (hcv : cv.settings = r.settings) (t : Track (Cell Rat)) :
    (∀ item ∈ t.items, item.Fits r) → ∀ (d : Direction) (cursor : Rat),
    (d.go cursor (t.measure r.settings.componentGap.width).width, t.rowEnd)
      ∈ cv.steps d cursor t := by
  induction t using Track.row_induction with
  | stop =>
    intro _ d cursor
    rw [Track.measure, Track.measureFrom, RowExtent.empty, Exact.zero_eq, Direction.go_zero]
    exact mem_steps_start d cursor _
  | wrap c rest ih =>
    intro h d cursor
    obtain ⟨hwrap, hrest⟩ := List.forall_mem_cons.mp h
    rw [Track.measure_wrap, Track.rowEnd]
    split
    case isTrue =>
      rw [RowExtent.empty, Exact.zero_eq, Direction.go_zero]
      exact mem_steps_start d cursor _
    case isFalse hh =>
      rw [steps_wrap hh hwrap]
      exact List.mem_cons_of_mem _ (ih hrest d cursor)
  | before item rest hitem _ ih =>
    intro h d cursor
    obtain ⟨-, -, hrest⟩ := Track.forall_items_before.mp h
    have hahead := ih hrest d (cv.onward d cursor rest item)
    rw [onward_eq hcv hitem, Direction.go_go] at hahead
    rw [steps_before, Track.width_before hitem, Track.rowEnd_before hitem, onward_eq hcv hitem]
    exact List.mem_cons_of_mem _ hahead

/-- **A walk along a level without breaks goes as far as its row is wide,** for that is where the
level ends. -/
theorem cursor_track (hcv : cv.settings = r.settings) {t : Track (Cell Rat)}
    (h : ∀ item ∈ t.items, item.Fits r) (hlater : t.laterRows = []) (b : Brush Rat) (d : Direction)
    (cursor : Rat) : (cv.track b d cursor t).cursor
      = d.go cursor (t.measure r.settings.componentGap.width).width := by
  have hend := mem_steps_rowEnd hcv t h d cursor
  rw [Track.rowEnd_of_laterRows t hlater] at hend
  exact (track_of_mem_steps t _ hend).2.symm

/-- **All places that such a walk comes by** are on its way. -/
theorem mem_steps_within (hcv : cv.settings = r.settings) (hs : r.settings.NonNeg)
    (hl : r.LabelsNonNeg) (t : Track (Cell Rat)) :
    (∀ item ∈ t.items, item.Fits r) → t.laterRows = [] →
    ∀ (d : Direction) (cursor : Rat), ∀ place ∈ cv.steps d cursor t,
    ∃ way, 0 ≤ way ∧ way ≤ (t.measure r.settings.componentGap.width).width ∧
      place.1 = d.go cursor way := by
  induction t using Track.row_induction with
  | stop =>
    intro _ _ d cursor place hplace
    obtain rfl := List.mem_singleton.mp hplace
    exact ⟨0, le_refl 0, le_of_eq Exact.zero_eq.symm, (d.go_zero cursor).symm⟩
  | wrap c rest ih =>
    intro h hlater d cursor place hplace
    have hwidth := Track.width_nonneg hs hl _ h
    obtain ⟨hwrap, hrest⟩ := List.forall_mem_cons.mp h
    rw [Track.laterRows] at hlater
    split at hlater
    case isTrue => cases hlater
    case isFalse hh =>
      rw [steps_wrap hh hwrap] at hplace
      rcases List.mem_cons.mp hplace with rfl | hplace
      · exact ⟨0, le_refl 0, hwidth, (d.go_zero cursor).symm⟩
      · rw [Track.measure_wrap, if_neg hh]
        exact ih hrest hlater d cursor place hplace
  | before item rest hitem _ ih =>
    intro h hlater d cursor place hplace
    have hwidth := Track.width_nonneg hs hl _ h
    obtain ⟨hfits, hinside, hrest⟩ := Track.forall_items_before.mp h
    rw [steps_before] at hplace
    rcases List.mem_cons.mp hplace with rfl | hplace
    · exact ⟨0, le_refl 0, hwidth, (d.go_zero cursor).symm⟩
    · rw [Track.laterRows_before hitem] at hlater
      obtain ⟨way, hway, hle, hat⟩ := ih hrest hlater d _ place hplace
      rw [onward_eq hcv hitem, Direction.go_go] at hat
      have hmark := hfits.width_nonneg hs hl fun level hlevel =>
        Track.width_nonneg hs hl level (hinside level hlevel)
      have hconnector := item.connector_nonneg hs.gapWidth rest
      rw [Track.width_before hitem]
      exact ⟨_, by linarith, by linarith, hat⟩

/-! ## 3. Walks inside a node -/

/-- A level in the middle of a node that is wider by some margin on either side. -/
theorem centred_within (d : Direction) {left width own margin : Rat} {level : Track (Cell Rat)}
    {gap : Rat} (hown : own = (level.measure gap).width) (hle : own + 2 * margin ≤ width) :
    (centred d left width own level).direction.Within (centred d left width own level).cursor
      (level.measure gap).width (left + margin) (left + width - margin) := by
  refine d.within_start (congrArg _ hown.symm) ?_ ?_
  · rw [Exact.two_eq]
    linarith
  · rw [Exact.two_eq]
    linarith

/-- **The walks inside a node keep a gap away from both ends of its room.** -/
theorem within_gaps_of_mem_insideWalks (hcv : cv.settings = r.settings) (hs : r.settings.NonNeg)
    {item : Item (Cell Rat)} (h : item.Fits r)
    (hlevels : ∀ level ∈ item.levels, 0 ≤ (level.measure r.settings.componentGap.width).width)
    (d : Direction) (left : Rat) : ∀ w ∈ cv.insideWalks d left item,
    w.level ∈ item.levels ∧
      w.direction.Within w.cursor (w.level.measure r.settings.componentGap.width).width
        (left + r.settings.componentGap.width)
        (left + item.mark.extent.width - r.settings.componentGap.width) := by
  have hextent := Item.extent_mark h.proper
  have hsized := h.sized
  cases item with
  | symbol _ | epsilon _ | wrap _ => exact List.forall_mem_nil _
  | optional c body =>
    change c.extent = c.box.size at hextent
    refine List.forall_mem_singleton.mpr ⟨List.mem_singleton_self _, ?_⟩
    change d.Within _ _ _ (left + c.extent.width - _)
    rw [hextent, hsized.optional_box.1, hcv]
    exact d.within_start (by ring) (le_refl _) (le_refl _)
  | iteration c body =>
    change c.extent = c.box.size at hextent
    refine List.forall_mem_singleton.mpr ⟨List.mem_singleton_self _, ?_⟩
    change d.flip.Within _ _ _ (left + c.extent.width - _)
    rw [hextent, (hsized.iteration_box hs).1, hcv]
    exact d.flip.within_start (by ring) (le_refl _) (le_refl _)
  | rerun c body between =>
    change c.extent = c.box.size at hextent
    obtain ⟨hgroup, hback, -, -, hbodyWidth, hbackWidth⟩ := hsized.rerun_box hs
    obtain ⟨hbody, -⟩ := List.forall_mem_cons.mp hlevels
    change ∀ w ∈ cv.insideWalks d left (.rerun c body between), w.level ∈ _ ∧
      w.direction.Within w.cursor _ _ (left + c.extent.width - _)
    rw [hextent]
    refine List.forall_mem_cons.mpr ⟨⟨List.mem_cons_self, ?_⟩,
      List.forall_mem_singleton.mpr ⟨List.mem_cons_of_mem _ (List.mem_singleton_self _), ?_⟩⟩
    · have hwidth : c.box.group.width = (body.measure r.settings.componentGap.width).width := by
        rw [hgroup]
        rfl
      exact centred_within d hwidth (by linarith)
    · exact centred_within d.flip hback (by linarith [hbackWidth hbody])
  | choice branches =>
    refine List.forall_mem_map.mpr fun level hlevel => ⟨List.mem_map_of_mem hlevel, ?_⟩
    have hwidth : level.1.box.size.width
        = (level.2.measure r.settings.componentGap.width).width := by
      rw [(hsized.2 level hlevel).1]
      rfl
    have hle := hsized.choice_box.2 level hlevel
    change branches.head.extent = branches.head.box.group at hextent
    refine centred_within d hwidth ?_
    rw [hextent]
    exact hle

/-- **The walks inside a node stay within its room.** -/
theorem within_of_mem_insideWalks (hcv : cv.settings = r.settings) (hs : r.settings.NonNeg)
    {item : Item (Cell Rat)} (h : item.Fits r)
    (hlevels : ∀ level ∈ item.levels, 0 ≤ (level.measure r.settings.componentGap.width).width)
    (d : Direction) (left : Rat) : ∀ w ∈ cv.insideWalks d left item,
    w.level ∈ item.levels ∧
      w.direction.Within w.cursor (w.level.measure r.settings.componentGap.width).width left
        (left + item.mark.extent.width) := by
  intro w hw
  have hgap := hs.gapWidth
  obtain ⟨hlevel, hwithin⟩ := within_gaps_of_mem_insideWalks hcv hs h hlevels d left w hw
  exact ⟨hlevel, hwithin.mono (by linarith) (by linarith)⟩

/-- **All places that the walks inside a node come by are in its room.** -/
theorem mem_steps_insideWalks (hcv : cv.settings = r.settings) (hs : r.settings.NonNeg)
    (hl : r.LabelsNonNeg) {item : Item (Cell Rat)} (h : item.Fits r)
    (hinside : ∀ level ∈ item.levels, ∀ x ∈ level.items, x.Fits r) (d : Direction) (left : Rat) :
    ∀ w ∈ cv.insideWalks d left item, ∀ place ∈ cv.steps w.direction w.cursor w.level,
      place.1 ∈ Set.Icc left (left + item.mark.extent.width) := by
  intro w hw place hplace
  have hwidth := fun level hlevel => Track.width_nonneg hs hl level (hinside level hlevel)
  obtain ⟨hlevel, hwithin⟩ := within_of_mem_insideWalks hcv hs h hwidth d left w hw
  have hrow := Track.laterRows_of_wrapFree _ (h.proper.wrapFree w.level hlevel)
  obtain ⟨way, hway, hle, hat⟩ := mem_steps_within hcv hs hl w.level (hinside _ hlevel) hrow
    w.direction w.cursor place hplace
  rw [hat]
  exact hwithin.go_mem hway hle

/-! ## 4. Rows of a page -/

/-- **Each later row begins at the left margin,** and the walk along the page goes along it. -/
theorem steps_subset_of_mem_laterRows {start : Track (Cell Rat)} (t : Track (Cell Rat)) :
    t.Led → start ∈ t.laterRows → ∀ cursor : Rat,
    cv.steps .forward cv.settings.margin.left start ⊆ cv.steps .forward cursor t := by
  induction t using Track.row_induction with
  | stop => exact fun _ h => absurd h List.not_mem_nil
  | wrap c rest ih =>
    intro hled hstart cursor
    rw [Track.laterRows] at hstart
    rw [steps]
    refine List.subset_cons_of_subset _ ?_
    split at hstart
    case isFalse => exact ih hled.2 hstart _
    case isTrue hh =>
      rcases List.mem_cons.mp hstart with rfl | hstart
      · rw [onward, hh, hled.1]
        exact List.Subset.refl _
      · exact ih hled.2 hstart _
  | before item rest hitem _ ih =>
    intro hled hstart cursor
    rw [Track.laterRows_before hitem] at hstart
    rw [steps_before]
    exact List.subset_cons_of_subset _ (ih ((Track.led_before hitem).mp hled) hstart _)

/-- **Every row of a page begins at the left margin and goes as far as it is wide.** -/
theorem steps_rows (hcv : cv.settings = r.settings) {page start : Track (Cell Rat)}
    (hpage : page.LaidOut r) (hstart : start ∈ page.rowStarts) :
    let left := r.settings.margin.left
    (left, start) ∈ cv.steps .forward left page ∧
      (left + (start.measure r.settings.componentGap.width).width, start.rowEnd)
        ∈ cv.steps .forward left page := by
  intro left
  have hend := fun t h => mem_steps_rowEnd hcv t h .forward left
  rcases List.mem_cons.mp hstart with rfl | hlater
  · exact ⟨mem_steps_start _ _ _, hend start hpage.fits⟩
  · have hsubset : cv.steps .forward cv.settings.margin.left start
        ⊆ cv.steps .forward left page := steps_subset_of_mem_laterRows page hpage.led hlater left
    rw [hcv] at hsubset
    have hitems := Track.items_subset_of_mem_laterRows page hlater
    exact ⟨hsubset (mem_steps_start _ _ _),
      hsubset (hend start fun item hitem => hpage.fits item (hitems hitem))⟩

end Canvas

/-! ## 5. Compiled graphs -/

/-- The content of a page is as wide as each of its rows, or wider. -/
theorem LayoutSettings.width_le_page (s : LayoutSettings Rat) {rows : List (RowExtent Rat)}
    {row : RowExtent Rat} (h : row ∈ rows) : row.width ≤ (s.page rows).1.width :=
  Exact.le_largest (List.mem_map_of_mem h)

/-- **A drawing takes the width that the layout has reserved for it.**  On the page of a compiled
graph, whatever layouts it has been through, with settings that pass their check:

* a walk along a level that no row ends on goes as far as its row is wide, in either direction;
* when a node is drawn with its left end at `x`, the walks that are drawn inside it stay within its
  room, with all places that they come by;
* every row is drawn from the left margin on and goes as far as it is wide, which is not beyond the
  content of the page.

The second point is about drawing and not about sizes alone: the walks inside a node are those whose
marks are found among the marks of the level that the node stands on, at the cursors at which they
are drawn. -/
theorem arranged_walks {registry : Build.Registry} {collapsing : Bool} {p : Production} {g : Graph}
    (h : (Build.compile registry collapsing p).1 = .ok g) (rulers : List (Ruler Rat))
    {r : Ruler Rat} (hr : r.settings.validate = .ok ()) (hl : r.LabelsNonNeg) {cv : Canvas Rat}
    (hcv : cv.settings = r.settings) :
    let gap := r.settings.componentGap.width
    let left := r.settings.margin.left
    let page := ((g.afterLayouts rulers).arranged r).1
    let content := (r.settings.page ((g.afterLayouts rulers).arranged r).2).1
    (∀ level ∈ page :: page.items.flatMap Item.levels, level.laterRows = [] →
      ∀ (b : Brush Rat) (cursor : Rat),
      (cv.track b .forward cursor level).cursor = cursor + (level.measure gap).width ∧
        (cv.track b .reverse cursor level).cursor = cursor - (level.measure gap).width) ∧
      (∀ item ∈ page.items, ∀ (d : Direction) (cursor : Rat),
        let x := Canvas.leftEnd d cursor item.mark
        ∀ w ∈ cv.insideWalks d x item,
          (∀ (b : Brush Rat) (rest : Track (Cell Rat)), ∃ own,
            (cv.track own w.direction w.cursor w.level).marks
              <:+: (cv.track b d cursor (item.before rest)).marks) ∧
          (∀ b : Brush Rat, Set.uIcc w.cursor (cv.track b w.direction w.cursor w.level).cursor
            ⊆ Set.Icc x (x + item.mark.extent.width)) ∧
          ∀ place ∈ cv.steps w.direction w.cursor w.level,
            place.1 ∈ Set.Icc x (x + item.mark.extent.width)) ∧
      ∀ start ∈ page.rowStarts, (left, start) ∈ cv.steps .forward left page ∧
        (∀ b : Brush Rat,
          (cv.track b .forward left start).marks <:+ (cv.track b .forward left page).marks) ∧
        (left + (start.measure gap).width, start.rowEnd) ∈ cv.steps .forward left page ∧
        left + (start.measure gap).width ≤ left + content.width := by
  intro gap left page content
  have hpage : page.LaidOut r := Build.laidOut_of_compile h rulers r
  have hs := LayoutSettings.nonNeg_of_validate hr
  refine ⟨fun level hlevel hrow b cursor => ?_, fun item hitem d cursor w hw => ?_,
    fun start hstart => ?_⟩
  · have hitems : level.items ⊆ page.items := by
      rcases List.mem_cons.mp hlevel with rfl | hinner
      · exact List.Subset.refl _
      · obtain ⟨item, hitem, hlevel⟩ := List.mem_flatMap.mp hinner
        exact Track.items_subset_of_mem_levels page hitem hlevel
    have hcursor := fun d => Canvas.cursor_track hcv
      (fun item hitem => hpage.fits item (hitems hitem)) hrow b d cursor
    exact ⟨hcursor .forward, hcursor .reverse⟩
  · have hinside : ∀ level ∈ item.levels, ∀ x ∈ level.items, x.Fits r := fun level hlevel x hx =>
      hpage.fits x (Track.items_subset_of_mem_levels page hitem hlevel hx)
    have hplaces := Canvas.mem_steps_insideWalks hcv hs hl (hpage.fits item hitem) hinside d _ w hw
    refine ⟨fun b rest => Canvas.infix_of_mem_insideWalks b d cursor item rest w hw, fun b => ?_,
      hplaces⟩
    exact Set.uIcc_subset_Icc (hplaces _ (Canvas.mem_steps_start _ _ _))
      (hplaces _ (Canvas.mem_steps_end w.level w.cursor))
  · obtain ⟨hbegin, hend⟩ := Canvas.steps_rows hcv hpage hstart
    refine ⟨hbegin, fun b => (Canvas.track_of_mem_steps page _ hbegin).1, hend, ?_⟩
    have hrow : start.measure gap ∈ ((g.afterLayouts rulers).arranged r).2 := by
      rw [Graph.rows_arranged, Track.rows_eq]
      exact List.mem_map_of_mem hstart
    linarith [r.settings.width_le_page hrow]

/-- The labels of the words of the production, in black on white. -/
def repeatedChoiceCanvas : Canvas Rat where
  settings := .default
  chart := ⟨Color.black, Color.black, Color.white, Color.white, 1.0, false⟩
  label node := node.name ⟨[(.terminal, "a"), (.terminal, "b")]⟩
  frameColor _ := Color.black

/-- The choice is drawn on the way back of the loop around it, and stays within the loop. -/
theorem arranged_walks_repeatedChoice :
    (Build.compile {} true repeatedChoice).1 = .ok repeatedChoiceGraph ∧
      repeatedChoiceRuler.settings.validate = .ok () ∧ repeatedChoiceRuler.LabelsNonNeg ∧
      ∀ item ∈ (repeatedChoiceGraph.arranged repeatedChoiceRuler).1.items, ∀ (d : Direction)
        (cursor : Rat), let x := Canvas.leftEnd d cursor item.mark
        ∀ w ∈ repeatedChoiceCanvas.insideWalks d x item,
        ∀ place ∈ repeatedChoiceCanvas.steps w.direction w.cursor w.level,
          place.1 ∈ Set.Icc x (x + item.mark.extent.width) := by
  have hlabels := Ruler.labelsNonNeg_ofSymbols .default ⟨[(.terminal, "a"), (.terminal, "b")]⟩
  have hsettings : repeatedChoiceCanvas.settings = repeatedChoiceRuler.settings := rfl
  have hwalks := (arranged_walks compile_repeatedChoice [] validate_repeatedChoiceRuler hlabels
    hsettings).2.1
  exact ⟨compile_repeatedChoice, validate_repeatedChoiceRuler, hlabels,
    fun item hitem d cursor w hw => (hwalks item hitem d cursor w hw).2.2⟩

end Railroad
