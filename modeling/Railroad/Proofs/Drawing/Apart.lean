/-
# Boxes apart

Where a box is drawn vertically comes from the layout, where horizontally from the cursor of the
walk.  In exact numbers both together keep the boxes of a drawing apart.

The boxes that a walk draws are packed into the room of the walk (`Packed`): its row is ahead of the
cursor and between two heights, and what comes after a break is below (`Canvas.keepsRoom`).  What is
inside a node is packed into the room of the node (`Canvas.packed_item`), so that neighbours,
branches and rows do not meet.

The regions are products of an interval across and one upright, so that two of them are apart when
either pair of intervals is.  Nodes of one row are apart across, rows and branches upright; and what
is inside a node is apart from what is beside it because the node is.  Only interiors are spoken of,
since boxes may touch when a gap is zero.
-/
import Mathlib
import Railroad.Proofs.Drawing.Signs
import Railroad.Proofs.Drawing.Widths

namespace Railroad

open Scalar

/-! ## 1. Boxes in a region -/

/-- What a box covers, without its outline. -/
def Sign.interior? : Sign Rat → Option (Set (Rat × Rat))
  | .rect origin size =>
    some (Set.Ioo origin.x (origin.x + size.width) ×ˢ Set.Ioo origin.y (origin.y + size.height))
  | .text _ => none
  | .arrow _ => none

/-- What a mark covers if it is a box, without its outline. -/
def Primitive.interior? (mark : Primitive Rat) : Option (Set (Rat × Rat)) :=
  mark.sign?.bind Sign.interior?

/-- **Boxes that lie in a region and do not overlap.**  Two such lists can be put together if their
regions do not meet. -/
structure Packed (region : Set (Rat × Rat)) (boxes : List (Set (Rat × Rat))) : Prop where
  subset : ∀ box ∈ boxes, box ⊆ region
  apart : boxes.Pairwise Disjoint

namespace Packed

variable {region region' whole : Set (Rat × Rat)} {boxes boxes' : List (Set (Rat × Rat))}

theorem nil : Packed region [] := ⟨List.forall_mem_nil _, .nil⟩

theorem mono (h : Packed region boxes) (hsub : region ⊆ whole) : Packed whole boxes :=
  ⟨fun box hbox => (h.subset box hbox).trans hsub, h.apart⟩

/-- **Two regions that are apart.** -/
theorem append (h : Packed region boxes) (h' : Packed region' boxes')
    (hapart : Disjoint region region') (hsub : region ⊆ whole) (hsub' : region' ⊆ whole) :
    Packed whole (boxes ++ boxes') where
  subset := List.forall_mem_append.mpr ⟨(h.mono hsub).subset, (h'.mono hsub').subset⟩
  apart := List.pairwise_append.mpr ⟨h.apart, h'.apart, fun box hbox box' hbox' =>
    hapart.mono (h.subset box hbox) (h'.subset box' hbox')⟩

/-- **One region below another.** -/
theorem stack {across : Set Rat} {a b c d : Rat} (h : Packed (across ×ˢ Set.Ioo a b) boxes)
    (h' : Packed (across ×ˢ Set.Ioo c d) boxes') (hab : a ≤ b) (hbc : b ≤ c) (hcd : c ≤ d) :
    Packed (across ×ˢ Set.Ioo a d) (boxes ++ boxes') := by
  refine h.append h' ?_ ?_ ?_
  · refine Set.disjoint_prod.mpr (.inr (Set.disjoint_left.mpr fun y hy hy' => ?_))
    exact absurd hy.2 (not_lt.mpr (hbc.trans hy'.1.le))
  · exact Set.prod_mono le_rfl (Set.Ioo_subset_Ioo le_rfl (hbc.trans hcd))
  · exact Set.prod_mono le_rfl (Set.Ioo_subset_Ioo (hab.trans hbc) le_rfl)

/-- If each region is below the one before it, then it is below all before it. -/
theorem pairwise_below {β : Type} {upper lower : β → Rat} (hle : ∀ b, upper b ≤ lower b)
    {bs : List β} (h : bs.IsChain fun a b => lower a ≤ upper b) :
    bs.Pairwise fun a b => lower a ≤ upper b := by
  have htrans : IsTrans β fun a b => lower a ≤ upper b :=
    ⟨fun a b c hab hbc => hab.trans ((hle b).trans hbc)⟩
  exact h.pairwise

/-- **Regions one below the other.** -/
theorem flatMap {β : Type} {across : Set Rat} {upper lower : β → Rat}
    {inside : β → List (Set (Rat × Rat))} (hle : ∀ b, upper b ≤ lower b) : ∀ {bs : List β}
    {above below : Rat}, (∀ b ∈ bs, above ≤ upper b ∧ lower b ≤ below) →
    bs.IsChain (fun a b => lower a ≤ upper b) →
    (∀ b ∈ bs, Packed (across ×ˢ Set.Ioo (upper b) (lower b)) (inside b)) →
    Packed (across ×ˢ Set.Ioo above below) (bs.flatMap inside)
  | [], _, _, _, _, _ => nil
  | b :: bs, above, below, hbetween, hchain, hpacked => by
    obtain ⟨⟨habove, hbelow⟩, hothers⟩ := List.forall_mem_cons.mp hbetween
    obtain ⟨hfirst, -⟩ := List.pairwise_cons.mp (pairwise_below hle hchain)
    obtain ⟨hb, hrest⟩ := List.forall_mem_cons.mp hpacked
    have hhead : Packed (across ×ˢ Set.Ioo above (lower b)) (inside b) :=
      hb.mono (Set.prod_mono le_rfl (Set.Ioo_subset_Ioo habove le_rfl))
    have htail : Packed (across ×ˢ Set.Ioo (lower b) below) (bs.flatMap inside) :=
      flatMap hle (fun x hx => ⟨hfirst x hx, (hothers x hx).2⟩) hchain.tail hrest
    rw [List.flatMap_cons]
    exact hhead.stack htail (habove.trans (hle b)) le_rfl hbelow

end Packed

/-! ## 2. Ahead of the cursor -/

namespace Direction

/-- What is ahead of a cursor, up to some way off. -/
def ahead (d : Direction) (cursor way : Rat) : Set Rat :=
  match d with
  | .forward => Set.Ioo cursor (cursor + way)
  | .reverse => Set.Ioo (cursor - way) cursor

theorem ahead_mono (d : Direction) (cursor : Rat) {way way' : Rat} (h : way ≤ way') :
    d.ahead cursor way ⊆ d.ahead cursor way' := by
  cases d with
  | forward => exact Set.Ioo_subset_Ioo le_rfl (by linarith)
  | reverse => exact Set.Ioo_subset_Ioo (by linarith) le_rfl

/-- What is ahead later is also ahead now. -/
theorem ahead_go (d : Direction) (cursor : Rat) {gone : Rat} (h : 0 ≤ gone) (way : Rat) :
    d.ahead (d.go cursor gone) way ⊆ d.ahead cursor (gone + way) := by
  cases d with
  | forward => exact Set.Ioo_subset_Ioo (by simp only [go]; linarith) (by simp only [go]; linarith)
  | reverse => exact Set.Ioo_subset_Ioo (by simp only [go]; linarith) (by simp only [go]; linarith)

/-- What one has gone by is not ahead any more. -/
theorem ahead_disjoint (d : Direction) (cursor : Rat) {way gone : Rat} (h : way ≤ gone)
    (way' : Rat) : Disjoint (d.ahead cursor way) (d.ahead (d.go cursor gone) way') := by
  refine Set.disjoint_left.mpr ?_
  cases d with
  | forward =>
    intro x hx hx'
    have hle : x < cursor + way := hx.2
    have hgt : cursor + gone < x := hx'.1
    linarith
  | reverse =>
    intro x hx hx'
    have hle : cursor - way < x := hx.1
    have hgt : x < cursor - gone := hx'.2
    linarith

/-- A node reaches from the cursor ahead, whichever way it is drawn. -/
theorem ahead_leftEnd (d : Direction) (cursor : Rat) (c : Cell Rat) :
    Set.Ioo (Canvas.leftEnd d cursor c) (Canvas.leftEnd d cursor c + c.extent.width)
      = d.ahead cursor c.extent.width := by
  cases d with
  | forward => rfl
  | reverse =>
    rw [ahead, Canvas.leftEnd]
    congr 1
    ring

/-- A way that stays between two points is ahead between them. -/
theorem Within.ahead_subset {d : Direction} {cursor way left right : Rat}
    (h : d.Within cursor way left right) : d.ahead cursor way ⊆ Set.Ioo left right := by
  cases d with
  | forward => exact Set.Ioo_subset_Ioo h.1 h.2
  | reverse => exact Set.Ioo_subset_Ioo h.1 h.2

end Direction

/-! ## 3. Bands -/

namespace Track

/-- **The rows of a level lie one below the other,** the first of them between two heights.  Where
the last of them ends is not said. -/
def Banded : Rat → Rat → Track (Cell Rat) → Prop
  | _, _, .stop => True
  | top, bottom, .wrap c rest =>
    if c.box.hasHeight then ∃ lower, bottom ≤ lower ∧ rest.Banded bottom lower
    else rest.Banded top bottom
  | top, bottom, .symbol c rest | top, bottom, .epsilon c rest | top, bottom, .optional c _ rest
  | top, bottom, .iteration c _ rest | top, bottom, .rerun c _ _ rest =>
    (top ≤ c.box.top ∧ c.box.bottom ≤ bottom) ∧ rest.Banded top bottom
  | top, bottom, .choice branches rest =>
    (top ≤ branches.head.box.top ∧ branches.head.box.bottom ≤ bottom) ∧ rest.Banded top bottom

variable {gap : Size Rat} {top bottom : Rat}

theorem banded_before {item : Item (Cell Rat)} {rest : Track (Cell Rat)}
    (hitem : item.isWrap = false) : (item.before rest).Banded top bottom ↔
      (top ≤ item.mark.box.top ∧ item.mark.box.bottom ≤ bottom) ∧ rest.Banded top bottom := by
  cases item with
  | wrap _ => cases hitem
  | _ => exact Iff.rfl

/-- The rows of a level that stands. -/
theorem banded_of_standsFrom (t : Track (Cell Rat)) : ∀ {top : Rat} {row : RowExtent Rat},
    t.StandsFrom gap top row → row.Covers t.rowCells → t.Banded top (top + row.height) := by
  induction t using row_induction with
  | stop => exact fun _ _ => trivial
  | wrap c rest ih =>
    intro top row h hcovers
    have hrest := standsFrom_wrap h
    rw [rowCells] at hcovers
    rw [Banded]
    split
    case isTrue hh =>
      rw [if_pos hh] at hrest
      exact ⟨_, le_add_of_nonneg_right (rest.height_nonneg _),
        ih hrest (covers_measure gap.width rest)⟩
    case isFalse hh =>
      rw [if_neg hh] at hrest hcovers
      exact ih hrest hcovers
  | before item rest hitem _ ih =>
    intro top row h hcovers
    obtain ⟨hstands, hrest⟩ := (standsFrom_before hitem).mp h
    rw [rowCells_before hitem] at hcovers
    obtain ⟨⟨hascent, hdescent⟩, hothers⟩ := List.forall_mem_cons.mp hcovers
    obtain ⟨hline, htop, hbottom⟩ := Cell.heights_of_onLine (item.onLine_mark hitem hstands)
    rw [Cell.descent] at hdescent
    refine (banded_before hitem).mpr ⟨⟨by linarith, ?_⟩, ih hrest hothers⟩
    rw [RowExtent.height]
    linarith

theorem rowTop_le_rowBottom (gap line : Rat) (t : Track (Cell Rat)) :
    t.rowTop gap line ≤ t.rowBottom gap line := by
  have hascent := t.ascent_nonneg gap
  have hdescent := t.descent_nonneg gap
  rw [rowTop, rowBottom]
  linarith

/-- A level without wraps whose nodes lie between two heights. -/
theorem banded_of_wrapFree (t : Track (Cell Rat)) : t.WrapFree →
    (∀ c ∈ t.rowCells, top ≤ c.box.top ∧ c.box.bottom ≤ bottom) → t.Banded top bottom := by
  induction t using item_induction with
  | stop => exact fun _ _ => trivial
  | before item rest _ ih =>
    intro hfree hcells
    obtain ⟨hwrap, hrest⟩ := wrapFree_before hfree
    rw [rowCells_before hwrap] at hcells
    obtain ⟨hmark, hothers⟩ := List.forall_mem_cons.mp hcells
    exact (banded_before hwrap).mpr ⟨hmark, ih hrest hothers⟩

/-- Where the later rows of a level lie, if it has any: below a height. -/
def laterRoom (bottom : Rat) (t : Track (Cell Rat)) : Set (Rat × Rat) :=
  if t.laterRows = [] then ∅ else Set.univ ×ˢ Set.Ioi bottom

theorem laterRoom_subset (bottom : Rat) (t : Track (Cell Rat)) :
    t.laterRoom bottom ⊆ Set.univ ×ˢ Set.Ioi bottom := by
  unfold laterRoom
  split
  · exact Set.empty_subset _
  · exact Set.Subset.refl _

theorem laterRoom_before {item : Item (Cell Rat)} {rest : Track (Cell Rat)}
    (hitem : item.isWrap = false) :
    (item.before rest).laterRoom bottom = rest.laterRoom bottom := by
  rw [laterRoom, laterRoom, laterRows_before hitem]

end Track

/-! ## 4. Boxes of a walk -/

namespace Canvas

/-- The boxes that a level is drawn with. -/
def boxes (cv : Canvas Rat) (d : Direction) (cursor : Rat) (t : Track (Cell Rat)) :
    List (Set (Rat × Rat)) :=
  (cv.signs d cursor t).filterMap Sign.interior?

/-- The boxes that a node is drawn with, with its left end at `left`. -/
def itemBoxes (cv : Canvas Rat) (d : Direction) (left : Rat) (item : Item (Cell Rat)) :
    List (Set (Rat × Rat)) :=
  (cv.ownSigns d left item).filterMap Sign.interior? ++
    (cv.insideWalks d left item).flatMap fun w => cv.boxes w.direction w.cursor w.level

/-- **The room of a walk:** its row is ahead of the cursor and between two heights, and later rows
are below.  It gets smaller as the walk goes on. -/
def room (gap : Rat) (d : Direction) (cursor top bottom : Rat) (t : Track (Cell Rat)) :
    Set (Rat × Rat) :=
  d.ahead cursor (t.measure gap).width ×ˢ Set.Ioo top bottom ∪ t.laterRoom bottom

variable {cv : Canvas Rat} {r : Ruler Rat}

theorem boxes_before (d : Direction) (cursor : Rat) (item : Item (Cell Rat))
    (rest : Track (Cell Rat)) : cv.boxes d cursor (item.before rest)
      = cv.itemBoxes d (leftEnd d cursor item.mark) item ++
        cv.boxes d (cv.onward d cursor rest item) rest := by
  have hclosing : (closingSigns item.mark rest).filterMap Sign.interior? = [] := by
    unfold closingSigns
    split <;> rfl
  simp only [boxes, itemBoxes, signs_before, insideSigns, List.filterMap_append,
    List.filterMap_flatMap, hclosing, List.append_nil]

/-- What is drawn along a level lies in the room of the walk, wherever it begins. -/
def KeepsRoom (cv : Canvas Rat) (gap : Rat) (t : Track (Cell Rat)) : Prop :=
  ∀ (d : Direction) (cursor top bottom : Rat), t.Banded top bottom →
    Packed (room gap d cursor top bottom t) (cv.boxes d cursor t)

/-- A walk along a level that lies on a track. -/
theorem KeepsRoom.packed {gap line above below cursor left right : Rat} {t : Track (Cell Rat)}
    {d : Direction} (h : cv.KeepsRoom gap t) (hlies : t.LiesIn gap line above below)
    (hwithin : d.Within cursor (t.measure gap).width left right) :
    Packed (Set.Ioo left right ×ˢ Set.Ioo (t.rowTop gap line) (t.rowBottom gap line))
      (cv.boxes d cursor t) := by
  have hbanded := Track.banded_of_wrapFree t hlies.owned.2 fun c hc => (hlies.onTrack c hc).2
  refine (h d cursor _ _ hbanded).mono ?_
  rw [room, Track.laterRoom, if_pos (Track.laterRows_of_wrapFree _ hlies.owned.2), Set.union_empty]
  exact Set.prod_mono hwithin.ahead_subset le_rfl

/-- A walk inside a node, along a level that lies between two heights. -/
theorem KeepsRoom.packed_within {gap line above below cursor left right : Rat}
    {t : Track (Cell Rat)} {d : Direction} (h : cv.KeepsRoom gap t)
    (hlies : t.LiesIn gap line above below)
    (hwithin : d.Within cursor (t.measure gap).width left right) :
    Packed (Set.Ioo left right ×ˢ Set.Ioo above below) (cv.boxes d cursor t) :=
  (h.packed hlies hwithin).mono
    (Set.prod_mono le_rfl (Set.Ioo_subset_Ioo hlies.above_le hlies.le_below))

/-- The box of a symbol lies within its node, for half a gap is left above it and below it. -/
theorem packed_symbol (hcv : cv.settings = r.settings) (hs : r.settings.NonNeg)
    (hl : r.LabelsNonNeg) {c : Cell Rat} (hitem : (Item.symbol c).Fits r) (d : Direction)
    (left : Rat) : Packed (Set.Ioo left (left + c.extent.width) ×ˢ Set.Ioo c.box.top c.box.bottom)
      (cv.itemBoxes d left (.symbol c)) := by
  obtain ⟨hwidth, hheight, hascent⟩ := hitem.sized.symbol_box hs hl
  obtain ⟨line, hstands⟩ := hitem.stands
  obtain ⟨hline, htop, hbottom⟩ := Cell.heights_of_onLine hstands
  have hextent : c.extent = c.box.size := Item.extent_mark hitem.proper
  have hgap := hs.gapHeight
  rw [hextent] at hbottom ⊢
  refine ⟨List.forall_mem_singleton.mpr ?_, List.pairwise_singleton _ _⟩
  refine Set.prod_mono le_rfl (Set.Ioo_subset_Ioo ?_ ?_)
  · rw [hcv, Exact.two_eq]
    linarith
  · rw [hcv, Exact.two_eq]
    linarith

/-- What a rerun runs back over is drawn below its body. -/
theorem packed_rerun {gap : Size Rat} {c : Cell Rat} {body between : Track (Cell Rat)}
    (hnests : (Item.rerun c body between).Nests gap)
    (hroom : ∀ level ∈ [body, between], cv.KeepsRoom gap.width level) {d : Direction}
    {left right : Rat} (hwithin : ∀ w ∈ cv.insideWalks d left (.rerun c body between),
      w.direction.Within w.cursor (w.level.measure gap.width).width left right) :
    Packed (Set.Ioo left right ×ˢ Set.Ioo c.box.top c.box.bottom)
      (cv.itemBoxes d left (.rerun c body between)) := by
  obtain ⟨hlies, hback⟩ := hnests
  obtain ⟨hbodyRoom, hbetweenRoom⟩ := List.forall_mem_cons.mp hroom
  obtain ⟨hbodyWithin, hbetweenWithin⟩ := List.forall_mem_cons.mp hwithin
  change Packed _
    (List.flatMap (fun w : Walk Rat => cv.boxes w.direction w.cursor w.level) [_, _])
  rw [List.flatMap_cons, List.flatMap_singleton]
  cases hstop : between.isStop with
  | true =>
    cases between with
    | stop =>
      change Packed _ (_ ++ [])
      rw [List.append_nil]
      exact KeepsRoom.packed_within hbodyRoom hlies hbodyWithin
    | _ => cases hstop
  | false =>
    obtain ⟨line, -, hliesBack⟩ := hback between (Track.mem_present.mpr ⟨rfl, hstop⟩)
    have hbelow := body.rowTop_le_rowBottom gap.width c.box.line
    have hbody := (KeepsRoom.packed hbodyRoom hlies hbodyWithin).mono
      (Set.prod_mono le_rfl (Set.Ioo_subset_Ioo hlies.above_le le_rfl))
    have hbetween := KeepsRoom.packed_within (hbetweenRoom between (List.mem_singleton_self _))
      hliesBack (hbetweenWithin _ (List.mem_singleton_self _))
    exact hbody.stack hbetween (hlies.above_le.trans hbelow) le_rfl hlies.le_below

/-- The branches of an alternation are drawn one below the other. -/
theorem packed_choice {gap : Size Rat} (hgap : 0 ≤ gap.height) {branches : Branches (Cell Rat)}
    (hnests : (Item.choice branches).Nests gap)
    (hroom : ∀ level ∈ branches.levels.map Prod.snd, cv.KeepsRoom gap.width level) {d : Direction}
    {left right : Rat} (hwithin : ∀ w ∈ cv.insideWalks d left (.choice branches),
      w.direction.Within w.cursor (w.level.measure gap.width).width left right) :
    Packed (Set.Ioo left right ×ˢ Set.Ioo branches.head.box.top branches.head.box.bottom)
      (cv.itemBoxes d left (.choice branches)) := by
  obtain ⟨hlies, hchain⟩ := hnests
  have hrows (level : Cell Rat × Track (Cell Rat)) :=
    level.2.rowTop_le_rowBottom gap.width level.1.box.line
  have hbelow : branches.levels.IsChain fun a b =>
      a.2.rowBottom gap.width a.1.box.line ≤ b.2.rowTop gap.width b.1.box.line :=
    hchain.imp fun a b h => by
      rw [h]
      exact le_add_of_nonneg_right hgap
  change Packed _ (List.flatMap (fun w : Walk Rat => cv.boxes w.direction w.cursor w.level)
    (branches.levels.map _))
  rw [List.flatMap_map]
  refine Packed.flatMap hrows (fun level hlevel => ?_) hbelow fun level hlevel => ?_
  · exact ⟨(hlies level hlevel).2.above_le, (hlies level hlevel).2.le_below⟩
  · have hlevelRoom : cv.KeepsRoom gap.width level.2 := hroom _ (List.mem_map_of_mem hlevel)
    exact hlevelRoom.packed (hlies level hlevel).1 (hwithin _ (List.mem_map_of_mem hlevel))

/-- **What a node is drawn with lies within the node.** -/
theorem packed_item (hcv : cv.settings = r.settings) (hs : r.settings.NonNeg)
    (hl : r.LabelsNonNeg) {item : Item (Cell Rat)} (hitem : item.Fits r)
    (hwidth : ∀ level ∈ item.levels, 0 ≤ (level.measure r.settings.componentGap.width).width)
    (hroom : ∀ level ∈ item.levels, cv.KeepsRoom r.settings.componentGap.width level)
    (d : Direction) (left : Rat) :
    Packed (Set.Ioo left (left + item.mark.extent.width) ×ˢ
      Set.Ioo item.mark.box.top item.mark.box.bottom) (cv.itemBoxes d left item) := by
  have hnests := hitem.nests hs
  have hwithin := fun w hw => (within_of_mem_insideWalks hcv hs hitem hwidth d left w hw).2
  cases item with
  | symbol c => exact packed_symbol hcv hs hl hitem d left
  | epsilon _ | wrap _ => exact .nil
  | optional c body =>
    have hlies : body.LiesIn r.settings.componentGap.width c.box.line c.box.top c.box.bottom :=
      hnests
    change Packed _ (List.flatMap (fun w : Walk Rat => cv.boxes w.direction w.cursor w.level) [_])
    rw [List.flatMap_singleton]
    exact KeepsRoom.packed_within (hroom body (List.mem_singleton_self _)) hlies
      (hwithin _ (List.mem_singleton_self _))
  | iteration c body =>
    obtain ⟨line, -, hlies⟩ := hnests
    change Packed _ (List.flatMap (fun w : Walk Rat => cv.boxes w.direction w.cursor w.level) [_])
    rw [List.flatMap_singleton]
    exact KeepsRoom.packed_within (hroom body (List.mem_singleton_self _)) hlies
      (hwithin _ (List.mem_singleton_self _))
  | rerun c body between => exact packed_rerun hnests hroom hwithin
  | choice branches => exact packed_choice hs.gapHeight hnests hroom hwithin

/-- **A walk draws its boxes in its room.** -/
theorem keepsRoom (hcv : cv.settings = r.settings) (hs : r.settings.NonNeg)
    (hl : r.LabelsNonNeg) (t : Track (Cell Rat)) : (∀ item ∈ t.items, item.Fits r) →
    cv.KeepsRoom r.settings.componentGap.width t := by
  induction t using Track.row_induction with
  | stop => exact fun _ _ _ _ _ _ => .nil
  | wrap c rest ih =>
    intro h d cursor top bottom hbanded
    obtain ⟨hwrap, hrest⟩ := List.forall_mem_cons.mp h
    have hboxes : cv.boxes d cursor (.wrap c rest)
        = cv.boxes d (cv.onward d cursor rest (.wrap c)) rest :=
      boxes_before d cursor (.wrap c) rest
    rw [hboxes]
    rw [Track.Banded] at hbanded
    split at hbanded
    case isTrue hh =>
      obtain ⟨lower, hle, hbands⟩ := hbanded
      have hlater : (Track.wrap c rest).laterRoom bottom = Set.univ ×ˢ Set.Ioi bottom := by
        rw [Track.laterRoom, Track.laterRows, if_pos hh, if_neg (List.cons_ne_nil _ _)]
      -- Where the next row begins does not matter: all of it is below this one.
      refine (ih hrest d _ bottom lower hbands).mono ?_
      change _ ⊆ _ ∪ (Track.wrap c rest).laterRoom bottom
      rw [hlater]
      refine Set.subset_union_of_subset_right (Set.union_subset ?_ ?_) _
      · exact Set.prod_mono (Set.subset_univ _) Set.Ioo_subset_Ioi_self
      · exact (rest.laterRoom_subset lower).trans
          (Set.prod_mono le_rfl (Set.Ioi_subset_Ioi hle))
    case isFalse hh =>
      have hsame := ih hrest d cursor top bottom hbanded
      rw [onward_wrap (Bool.eq_false_iff.mpr hh) hwrap, room, Track.laterRoom, Track.laterRows,
        if_neg hh, Track.measure_wrap, if_neg hh]
      exact hsame
  | before item rest hitem inside ih =>
    intro h d cursor top bottom hbanded
    obtain ⟨hfits, hinside, hrest⟩ := Track.forall_items_before.mp h
    obtain ⟨⟨htop, hbottom⟩, hbands⟩ := (Track.banded_before hitem).mp hbanded
    have hwidth := fun level hlevel => Track.width_nonneg hs hl level (hinside level hlevel)
    have hroom := fun level hlevel => inside level hlevel (hinside level hlevel)
    have hpacked := packed_item hcv hs hl hfits hwidth hroom d (leftEnd d cursor item.mark)
    have hahead := ih hrest d (cv.onward d cursor rest item) top bottom hbands
    have hmark := hfits.width_nonneg hs hl hwidth
    have hconnector := item.connector_nonneg hs.gapWidth rest
    have hrestWidth := Track.width_nonneg hs hl rest hrest
    rw [Direction.ahead_leftEnd] at hpacked
    rw [onward_eq hcv hitem] at hahead
    rw [boxes_before, onward_eq hcv hitem, room, Track.width_before hitem,
      Track.laterRoom_before hitem]
    refine hpacked.append hahead ?_ ?_ ?_
    · refine Set.disjoint_union_right.mpr ⟨?_, ?_⟩
      · exact Set.disjoint_prod.mpr (.inl (d.ahead_disjoint cursor (by linarith) _))
      · refine (Set.disjoint_prod.mpr (.inr ?_)).mono_right (rest.laterRoom_subset bottom)
        exact Set.disjoint_left.mpr fun y hy hy' =>
          absurd (hy.2.trans_le hbottom) (not_lt.mpr (le_of_lt hy'))
    · refine Set.subset_union_of_subset_left ?_ _
      exact Set.prod_mono (d.ahead_mono cursor (by linarith)) (Set.Ioo_subset_Ioo htop hbottom)
    · refine Set.union_subset_union_left _ (Set.prod_mono ?_ le_rfl)
      exact d.ahead_go cursor (by linarith) _

end Canvas

/-! ## 5. Compiled graphs -/

/-- **No two boxes of a drawing overlap.**  On the page of a compiled graph, whatever layouts it has
been through, with settings that pass their check and whatever sizes the labels have.

Boxes may touch, since only what is inside them is asked to be disjoint.  The numbers are exact
here; with rounding, two boxes that touch could overlap by the last bit. -/
theorem arranged_apart {registry : Build.Registry} {collapsing : Bool} {p : Production} {g : Graph}
    (h : (Build.compile registry collapsing p).1 = .ok g) (rulers : List (Ruler Rat))
    {r : Ruler Rat} (hr : r.settings.validate = .ok ()) (hl : r.LabelsNonNeg) {cv : Canvas Rat}
    (hcv : cv.settings = r.settings) :
    ((cv.page ((g.afterLayouts rulers).arranged r).1).filterMap Primitive.interior?).Pairwise
      Disjoint := by
  have hpage := Build.laidOut_of_compile h rulers r
  have hs := LayoutSettings.nonNeg_of_validate hr
  have hbanded := Track.banded_of_standsFrom _ hpage.stands (Track.covers_measure _ _)
  have hpacked := Canvas.keepsRoom hcv hs hl _ hpage.fits .forward cv.settings.margin.left _ _
    hbanded
  rw [Canvas.boxes, ← Canvas.signs_page, List.filterMap_filterMap] at hpacked
  exact hpacked.apart

/-- The words on the way back of the loop are drawn apart. -/
theorem arranged_apart_repeatedChoice :
    (Build.compile {} true repeatedChoice).1 = .ok repeatedChoiceGraph ∧
      repeatedChoiceRuler.settings.validate = .ok () ∧ repeatedChoiceRuler.LabelsNonNeg ∧
      ((repeatedChoiceCanvas.page (repeatedChoiceGraph.arranged repeatedChoiceRuler).1).filterMap
        Primitive.interior?).Pairwise Disjoint := by
  have hlabels := Ruler.labelsNonNeg_ofSymbols .default ⟨[(.terminal, "a"), (.terminal, "b")]⟩
  have hsettings : repeatedChoiceCanvas.settings = repeatedChoiceRuler.settings := rfl
  exact ⟨compile_repeatedChoice, validate_repeatedChoiceRuler, hlabels,
    arranged_apart compile_repeatedChoice [] validate_repeatedChoiceRuler hlabels hsettings⟩

end Railroad
