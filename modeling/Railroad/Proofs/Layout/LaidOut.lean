/-
# Pages that are laid out

A layout passes over a page three times: it sizes the nodes, sets the rows and places the nodes.
What is left of that in the end can be said of each node on its own:

* its box has the size that the ruler gives it for the rows of its levels (`Item.Sized`);
* its box stands on the track of its row, and its levels stand where it has room for them
  (`Item.Stands`).

A level *stands* at a height if placing it there once more would change nothing
(`Track.StandsAt`), which a level that was placed does (`placed_placed`).

`Track.LaidOut` gathers this for a page, and the page of a compiled graph is laid out in this sense,
whatever layouts came before (`Wrapped.laidOut`).

This is the interface between layouts and everything that is said of a page.  Results about nesting,
about room, about drawings start from `Track.LaidOut` and never look at the passes again, so a
change to how a page is arranged has to be followed up to this module and no further.
-/
import Railroad.Proofs.Layout.History
import Railroad.Proofs.Layout.Rows

namespace Railroad

open Scalar

variable {α : Type} [Scalar α]

/-! ## 1. Sizes -/

/-- Boxes of one size with their track at one place. -/
structure Box.SameSize (a b : Box α) : Prop where
  size : a.size = b.size
  group : a.group = b.group
  between : a.between = b.between
  ascent : a.ascent = b.ascent

omit [Scalar α] in
theorem Box.SameSize.refl (b : Box α) : b.SameSize b := ⟨rfl, rfl, rfl, rfl⟩

/-- **The box of a node has the size that the ruler gives it** for the rows of its levels.  Wraps
may have any height, but no width.  It looks at the levels inside as they are, and not at how they
came to be so. -/
def Item.Sized (r : Ruler α) : Item (Cell α) → Prop
  | .symbol c => c.box.SameSize (r.symbolBox c.node)
  | .epsilon c => c.box.SameSize r.epsilonBox
  | .wrap c => c.box.size.width = 0.0
  | .optional c body =>
    c.box.SameSize (r.optionalBox (body.measure r.settings.componentGap.width))
  | .iteration c body =>
    c.box.SameSize (r.iterationBox (body.measure r.settings.componentGap.width))
  | .rerun c body between =>
    c.box.SameSize (r.rerunBox (body.measure r.settings.componentGap.width)
      (if between.isStop then none else some (between.measure r.settings.componentGap.width)))
  | .choice branches =>
    branches.head.box.group = r.groupSize (branches.marks.map (·.box.size)) ∧
      ∀ level ∈ branches.levels,
        level.1.box.size = (level.2.measure r.settings.componentGap.width).size ∧
          level.1.box.ascent = (level.2.measure r.settings.componentGap.width).ascent

namespace Branches

theorem levels_mapMarks {β : Type} (f : β → β) (bs : Branches β) :
    (bs.mapMarks f).levels = bs.levels.map fun level => (f level.1, level.2) := by
  cases bs with
  | last _ _ => rfl
  | more b body others => exact congrArg ((f b, body) :: ·) (levels_mapMarks f others)

theorem head_mapMarks {β : Type} (f : β → β) (bs : Branches β) :
    (bs.mapMarks f).head = f bs.head := by
  cases bs <;> rfl

theorem levels_mapHead {β : Type} (f : β → β) (bs : Branches β) :
    (bs.mapHead f).levels.map Prod.snd = bs.levels.map Prod.snd := by
  cases bs <;> rfl

end Branches

namespace Track

theorem branchItems_mapMarks {β : Type} (f : β → β) (bs : Branches β) :
    branchItems (bs.mapMarks f) = branchItems bs := by
  rw [branchItems_eq, branchItems_eq, Branches.levels_mapMarks, List.flatMap_map]

mutual

theorem items_sized (r : Ruler α) : ∀ t : Track Spot, ∀ item ∈ (t.sized r).items, item.Sized r
  | .stop => List.forall_mem_nil _
  | .symbol b rest | .epsilon b rest => by
    rw [sized, items]
    exact List.forall_mem_cons.mpr ⟨.refl _, items_sized r rest⟩
  | .wrap b rest => by
    rw [sized, items]
    exact List.forall_mem_cons.mpr ⟨rfl, items_sized r rest⟩
  | .optional b body rest | .iteration b body rest => by
    rw [sized, items]
    exact List.forall_mem_cons.mpr ⟨.refl _,
      List.forall_mem_append.mpr ⟨items_sized r body, items_sized r rest⟩⟩
  | .rerun b body between rest => by
    rw [sized, items]
    exact List.forall_mem_cons.mpr ⟨.refl _, List.forall_mem_append.mpr ⟨items_sized r body,
      List.forall_mem_append.mpr ⟨items_sized r between, items_sized r rest⟩⟩⟩
  | .choice branches rest => by
    obtain ⟨hlevels, hitems⟩ := branchItems_sized r branches
    rw [sized, items, branchItems_mapMarks]
    refine List.forall_mem_cons.mpr ⟨⟨?_, ?_⟩,
      List.forall_mem_append.mpr ⟨hitems, items_sized r rest⟩⟩
    · rw [Branches.head_mapMarks, Branches.marks_mapMarks, List.map_map]
      rfl
    · rw [Branches.levels_mapMarks, List.forall_mem_map]
      exact hlevels

theorem branchItems_sized (r : Ruler α) : ∀ bs : Branches Spot,
    (∀ level ∈ (sizedBranches r bs).levels,
      level.1.box.size = (level.2.measure r.settings.componentGap.width).size ∧
        level.1.box.ascent = (level.2.measure r.settings.componentGap.width).ascent) ∧
      ∀ item ∈ branchItems (sizedBranches r bs), item.Sized r
  | .last b body => by
    rw [sizedBranches]
    exact ⟨List.forall_mem_singleton.mpr ⟨rfl, rfl⟩, items_sized r body⟩
  | .more b body others => by
    obtain ⟨hlevels, hitems⟩ := branchItems_sized r others
    rw [sizedBranches]
    exact ⟨List.forall_mem_cons.mpr ⟨⟨rfl, rfl⟩, hlevels⟩,
      List.forall_mem_append.mpr ⟨items_sized r body, hitems⟩⟩

end

end Track

/-! ## 2. Rows that are set -/

/-- Changes what is attached to the node itself, but not inside it. -/
def Item.mapMark {β : Type} (f : β → β) : Item β → Item β
  | .symbol b => .symbol (f b)
  | .epsilon b => .epsilon (f b)
  | .wrap b => .wrap (f b)
  | .optional b body => .optional (f b) body
  | .iteration b body => .iteration (f b) body
  | .rerun b body between => .rerun (f b) body between
  | .choice branches => .choice (branches.mapHead f)

theorem Item.levels_mapMark {β : Type} (f : β → β) (item : Item β) :
    (item.mapMark f).levels = item.levels := by
  cases item with
  | choice branches => exact Branches.levels_mapHead f branches
  | _ => rfl

theorem Item.mark_mapMark {β : Type} (f : β → β) (item : Item β) :
    (item.mapMark f).mark = f item.mark := by
  cases item with
  | choice branches => exact Track.head_mapHead f branches
  | _ => rfl

namespace Track

open frozenFrom

theorem frozenFrom_before {item : Item (Cell α)} (hitem : item.isWrap = false)
    (rest : Track (Cell α)) (used : NodeId → Bool) (row : RowExtent α) :
    (item.before rest).frozenFrom used row
      = (item.mapMark onPage).before (rest.frozenFrom used (higher row item.mark)) := by
  cases item with
  | wrap _ => cases hitem
  | _ => rfl

/-- A wrap gets a height, or not. -/
theorem frozenFrom_wrap (c : Cell α) (rest : Track (Cell α)) (used : NodeId → Bool)
    (row : RowExtent α) : ∃ height row', (c.box.size.width = 0.0 → height.width = 0.0) ∧
      (wrap c rest).frozenFrom used row
        = .wrap ((onPage c).mapBox ({ · with size := height })) (rest.frozenFrom used row') := by
  rw [frozenFrom]
  split
  · exact ⟨_, _, fun _ => rfl, rfl⟩
  · exact ⟨c.box.size, _, id, rfl⟩

theorem sized_onPage {r : Ruler α} {item : Item (Cell α)} (h : item.Sized r) :
    (item.mapMark onPage).Sized r := by
  cases item with
  | choice branches =>
    cases branches with
    | last b body =>
      exact ⟨h.1, List.forall_mem_singleton.mpr (h.2 (b, body) List.mem_cons_self)⟩
    | more _ _ _ =>
      exact ⟨h.1, List.forall_mem_cons.mpr (List.forall_mem_cons.mp h.2)⟩
  | wrap _ => exact h
  | _ => exact ⟨h.size, h.group, h.between, h.ascent⟩

/-- **Setting the rows keeps all sizes** but the heights of wraps. -/
theorem sized_frozenFrom {r : Ruler α} {used : NodeId → Bool} (t : Track (Cell α)) :
    ∀ row : RowExtent α, (∀ item ∈ t.items, item.Sized r) →
    ∀ item ∈ (t.frozenFrom used row).items, item.Sized r := by
  induction t using row_induction with
  | stop => exact fun _ h => h
  | wrap c rest ih =>
    intro row h
    obtain ⟨hwrap, hrest⟩ := List.forall_mem_cons.mp h
    obtain ⟨height, row', hheight, hfrozen⟩ := frozenFrom_wrap c rest used row
    rw [hfrozen, items]
    exact List.forall_mem_cons.mpr ⟨hheight hwrap, ih _ hrest⟩
  | before item rest hitem _ ih =>
    intro row h
    obtain ⟨hsized, hinside, hrest⟩ := forall_items_before.mp h
    rw [frozenFrom_before hitem]
    refine forall_items_before.mpr ⟨sized_onPage hsized, ?_, ih _ hrest⟩
    rwa [Item.levels_mapMark]

/-- The nodes of the level are marked as those of the page. -/
theorem onPage_frozenFrom {used : NodeId → Bool} (t : Track (Cell α)) : ∀ row : RowExtent α,
    ∀ c ∈ (t.frozenFrom used row).chain, c.box.onPage = true := by
  induction t using row_induction with
  | stop => exact fun _ _ h => absurd h List.not_mem_nil
  | wrap c rest ih =>
    intro row
    obtain ⟨_, row', _, hfrozen⟩ := frozenFrom_wrap c rest used row
    rw [hfrozen, chain]
    exact List.forall_mem_cons.mpr ⟨rfl, ih _⟩
  | before item rest hitem _ ih =>
    intro row
    rw [frozenFrom_before hitem, chain_before, Item.mark_mapMark]
    exact List.forall_mem_cons.mpr ⟨rfl, ih _⟩

/-- Nothing inside the nodes of the level changes. -/
theorem levels_frozenFrom {used : NodeId → Bool} {p : Track (Cell α) → Prop} (t : Track (Cell α)) :
    ∀ row : RowExtent α, (∀ item ∈ t.items, ∀ level ∈ item.levels, p level) →
    ∀ item ∈ (t.frozenFrom used row).items, ∀ level ∈ item.levels, p level := by
  induction t using row_induction with
  | stop => exact fun _ h => h
  | wrap c rest ih =>
    intro row h
    obtain ⟨hwrap, hrest⟩ := List.forall_mem_cons.mp h
    obtain ⟨_, row', _, hfrozen⟩ := frozenFrom_wrap c rest used row
    rw [hfrozen, items]
    exact List.forall_mem_cons.mpr ⟨hwrap, ih _ hrest⟩
  | before item rest hitem _ ih =>
    intro row h
    obtain ⟨hlevels, hinside, hrest⟩ := forall_items_before.mp h
    rw [frozenFrom_before hitem]
    refine forall_items_before.mpr ⟨?_, ?_, ih _ hrest⟩
    · rwa [Item.levels_mapMark]
    · rwa [Item.levels_mapMark]

end Track

/-! ## 3. Nodes that are placed -/

/-- The cell without its heights on the page. -/
def Cell.unplaced (c : Cell α) : Cell α := c.mapBox (·.place 0.0 0.0 0.0)

namespace Track

theorem connects_unplaced (t : Track (Cell α)) :
    (t.map Cell.unplaced).connects Cell.breaks = t.connects Cell.breaks := by
  cases t with
  | wrap _ rest => cases rest <;> rfl
  | _ => rfl

theorem measureFrom_unplaced (gap : α) (t : Track (Cell α)) : ∀ row : RowExtent α,
    (t.map Cell.unplaced).measureFrom gap row = t.measureFrom gap row := by
  induction t using item_induction with
  | stop => exact fun _ => rfl
  | before item rest _ ih =>
    intro row
    cases item with
    | wrap c =>
      rw [Item.before, map, measureFrom, measureFrom, ih]
      rfl
    | symbol c =>
      rw [Item.before, map, measureFrom, measureFrom, ih, connector, connects_unplaced]
      rfl
    | choice branches =>
      rw [Item.before, map, measureFrom, measureFrom, ih, head_mapBranches]
      rfl
    | _ =>
      rw [Item.before, map, measureFrom, measureFrom, ih]
      rfl

theorem rowsFrom_unplaced (gap : α) (t : Track (Cell α)) : ∀ row : RowExtent α,
    (t.map Cell.unplaced).rowsFrom gap row = t.rowsFrom gap row := by
  induction t using item_induction with
  | stop => exact fun _ => rfl
  | before item rest _ ih =>
    intro row
    cases item with
    | wrap c =>
      rw [Item.before, map, rowsFrom, rowsFrom, ih, ih]
      rfl
    | symbol c =>
      rw [Item.before, map, rowsFrom, rowsFrom, ih, connector, connects_unplaced]
      rfl
    | choice branches =>
      rw [Item.before, map, rowsFrom, rowsFrom, ih, head_mapBranches]
      rfl
    | _ =>
      rw [Item.before, map, rowsFrom, rowsFrom, ih]
      rfl

theorem unplaced_placed (gap : Size α) (t : Track (Cell α)) (top : α) (row : RowExtent α) :
    (t.placed gap top row).map Cell.unplaced = t.map Cell.unplaced :=
  map_placed (fun _ _ _ _ => rfl) gap t top row

/-- **Where its nodes are has no part in the extent of a row.** -/
theorem measure_placed (gap : Size α) (t : Track (Cell α)) (top : α) (row : RowExtent α) (w : α) :
    (t.placed gap top row).measure w = t.measure w := by
  rw [measure, measure, ← measureFrom_unplaced, unplaced_placed, measureFrom_unplaced]

theorem rows_placed (gap : Size α) (t : Track (Cell α)) (top : α) (row : RowExtent α) (w : α) :
    (t.placed gap top row).rows w = t.rows w := by
  rw [rows, rows, ← rowsFrom_unplaced, unplaced_placed, rowsFrom_unplaced]

theorem placed_wrap (gap : Size α) (c : Cell α) (rest : Track (Cell α)) (top : α)
    (row : RowExtent α) : (wrap c rest).placed gap top row =
      .wrap (c.mapBox (·.place top (top + row.ascent) (top + c.box.size.height)))
        (if c.box.hasHeight then rest.placed gap (top + row.height) (rest.measure gap.width)
          else rest.placed gap top row) := by
  rw [placed]
  exact (apply_ite ..).symm

theorem hasHeight_place (c : Cell α) (top line bottom : α) :
    (c.mapBox (·.place top line bottom)).box.hasHeight = c.box.hasHeight := rfl

theorem onLine_onLine (line : α) (c : Cell α) : (c.onLine line).onLine line = c.onLine line := rfl

theorem below_below (top : α) (c : Cell α) : (c.below top).below top = c.below top := rfl

theorem size_below (top : α) (c : Cell α) : (c.below top).box.size = c.box.size := rfl

mutual

/-- **To place a level where it is changes nothing.** -/
theorem placed_placed (gap : Size α) : ∀ (t : Track (Cell α)) (top : α) (row : RowExtent α),
    (t.placed gap top row).placed gap top row = t.placed gap top row
  | .stop, _, _ => by rw [placed, placed]
  | .wrap c rest, top, row => by
    rw [placed_wrap, placed_wrap, hasHeight_place]
    by_cases h : c.box.hasHeight = true
    · rw [if_pos h, if_pos h, measure_placed, placed_placed gap rest]
      rfl
    · rw [if_neg h, if_neg h, placed_placed gap rest]
      rfl
  | .symbol c rest, top, row | .epsilon c rest, top, row => by
    rw [placed, placed, onLine_onLine, placed_placed gap rest]
  | .optional c body rest, top, row | .iteration c body rest, top, row => by
    rw [placed, placed, onLine_onLine, measure_placed, placed_placed gap body,
      placed_placed gap rest]
  | .rerun c body between rest, top, row => by
    rw [placed, placed, onLine_onLine, measure_placed, measure_placed, placed_placed gap body,
      placed_placed gap between, placed_placed gap rest]
  | .choice (.last c body) rest, top, row => by
    rw [placed, placed, onLine_onLine, measure_placed, placed_placed gap body,
      placed_placed gap rest]
  | .choice (.more c body others) rest, top, row => by
    rw [placed, placed, onLine_onLine, measure_placed, placed_placed gap body,
      placedBranches_placedBranches gap others, placed_placed gap rest]

theorem placedBranches_placedBranches (gap : Size α) : ∀ (bs : Branches (Cell α)) (top : α),
    placedBranches gap top (placedBranches gap top bs) = placedBranches gap top bs
  | .last c body, top => by
    rw [placedBranches, placedBranches, below_below, measure_placed, placed_placed gap body]
  | .more c body others, top => by
    rw [placedBranches, placedBranches, below_below, size_below, measure_placed,
      placed_placed gap body, placedBranches_placedBranches gap others]

end

/-- A level stands where it is, when its current row begins at the height `top` and has the extent
`row`. -/
def StandsFrom (gap : Size α) (top : α) (row : RowExtent α) (t : Track (Cell α)) : Prop :=
  t.placed gap top row = t

/-- **A level stands at a height:** its first row begins there.  All its nodes are then at heights
that are known. -/
def StandsAt (gap : Size α) (top : α) (t : Track (Cell α)) : Prop :=
  t.StandsFrom gap top (t.measure gap.width)

/-- The branches below the head of an alternation stand below a height. -/
def BranchesStandAt (gap : Size α) (top : α) (bs : Branches (Cell α)) : Prop :=
  placedBranches gap top bs = bs

end Track

/-- **A node stands on a track,** and its levels stand where it has room for them. -/
def Item.Stands (gap : Size α) (line : α) : Item (Cell α) → Prop
  | .symbol c => c.onLine line = c
  | .epsilon c => c.onLine line = c
  | .wrap _ => True
  | .optional c body => c.onLine line = c ∧ body.StandsAt gap (c.box.top + gap.height / 2.0)
  | .iteration c body => c.onLine line = c ∧ body.StandsAt gap c.box.line
  | .rerun c body between =>
    c.onLine line = c ∧ body.StandsAt gap c.box.top ∧
      between.StandsAt gap (c.box.top + c.box.group.height)
  | .choice (.last c body) => c.onLine line = c ∧ body.StandsAt gap c.box.top
  | .choice (.more c body others) =>
    c.onLine line = c ∧ body.StandsAt gap c.box.top ∧
      Track.BranchesStandAt gap (c.box.top + (c.box.size.height + gap.height)) others

namespace Track

variable {gap : Size α} {top : α} {row : RowExtent α}

theorem standsFrom_before {item : Item (Cell α)} {rest : Track (Cell α)}
    (hitem : item.isWrap = false) : (item.before rest).StandsFrom gap top row ↔
      item.Stands gap (top + row.ascent) ∧ rest.StandsFrom gap top row := by
  cases item with
  | wrap _ => cases hitem
  | symbol c | epsilon c =>
    simp only [StandsFrom, Item.before, placed, symbol.injEq, epsilon.injEq, Item.Stands]
  | optional c body | iteration c body =>
    simp only [StandsFrom, StandsAt, Item.before, placed, optional.injEq, iteration.injEq,
      Item.Stands, and_assoc]
    refine and_congr_right fun h => ?_
    rw [h]
  | rerun c body between =>
    simp only [StandsFrom, StandsAt, Item.before, placed, rerun.injEq, Item.Stands, and_assoc]
    refine and_congr_right fun h => ?_
    rw [h]
  | choice branches =>
    cases branches with
    | last c body =>
      simp only [StandsFrom, StandsAt, Item.before, placed, choice.injEq, Branches.last.injEq,
        Item.Stands, and_assoc]
      refine and_congr_right fun h => ?_
      rw [h]
    | more c body others =>
      simp only [StandsFrom, StandsAt, BranchesStandAt, Item.before, placed, choice.injEq,
        Branches.more.injEq, Item.Stands, and_assoc]
      refine and_congr_right fun h => ?_
      rw [h]

theorem standsFrom_wrap {c : Cell α} {rest : Track (Cell α)} :
    (wrap c rest).StandsFrom gap top row →
      if c.box.hasHeight then rest.StandsAt gap (top + row.height)
      else rest.StandsFrom gap top row := by
  intro h
  rw [StandsFrom, placed_wrap, wrap.injEq] at h
  obtain ⟨-, h⟩ := h
  split at h
  case isTrue hh =>
    rw [if_pos hh]
    exact h
  case isFalse hh =>
    rw [if_neg hh]
    exact h

theorem branches_stand : ∀ {bs : Branches (Cell α)} {top : α}, BranchesStandAt gap top bs →
    ∀ level ∈ bs.levels, ∃ top, level.2.StandsAt gap top
  | .last _ _, top, h => by
    simp only [BranchesStandAt, placedBranches, Branches.last.injEq] at h
    exact List.forall_mem_singleton.mpr ⟨top, h.2⟩
  | .more _ _ _, top, h => by
    simp only [BranchesStandAt, placedBranches, Branches.more.injEq] at h
    exact List.forall_mem_cons.mpr ⟨⟨top, h.2.1⟩, branches_stand h.2.2⟩

theorem levels_stand {line : α} {item : Item (Cell α)} (h : item.Stands gap line) :
    ∀ level ∈ item.levels, ∃ top, level.StandsAt gap top := by
  cases item with
  | symbol _ | epsilon _ | wrap _ => exact List.forall_mem_nil _
  | optional _ _ | iteration _ _ => exact List.forall_mem_singleton.mpr ⟨_, h.2⟩
  | rerun _ _ _ =>
    exact List.forall_mem_cons.mpr ⟨⟨_, h.2.1⟩, List.forall_mem_singleton.mpr ⟨_, h.2.2⟩⟩
  | choice branches =>
    cases branches with
    | last _ _ => exact List.forall_mem_singleton.mpr ⟨_, h.2⟩
    | more _ _ _ =>
      exact List.forall_mem_cons.mpr ⟨⟨_, h.2.1⟩,
        List.forall_mem_map.mpr (branches_stand h.2.2)⟩

/-- **Where a level stands, all its nodes stand,** at any depth. -/
theorem items_stand (t : Track (Cell α)) : ∀ {top : α} {row : RowExtent α},
    t.StandsFrom gap top row → ∀ item ∈ t.items, ∃ line, item.Stands gap line := by
  induction t using row_induction with
  | stop => exact fun _ => List.forall_mem_nil _
  | wrap c rest ih =>
    intro top row h
    have hrest := standsFrom_wrap h
    refine List.forall_mem_cons.mpr ⟨⟨top, trivial⟩, ?_⟩
    split at hrest <;> exact ih hrest
  | before item rest hitem inside ih =>
    intro top row h
    obtain ⟨hstands, hrest⟩ := (standsFrom_before hitem).mp h
    refine forall_items_before.mpr ⟨⟨_, hstands⟩, fun level hlevel => ?_, ih hrest⟩
    obtain ⟨_, hlevel'⟩ := levels_stand hstands level hlevel
    exact inside level hlevel hlevel'

end Track

/-- The node itself stands on the track. -/
theorem Item.onLine_mark {gap : Size α} {line : α} {item : Item (Cell α)}
    (hitem : item.isWrap = false) (h : item.Stands gap line) :
    item.mark.onLine line = item.mark := by
  cases item with
  | wrap _ => cases hitem
  | symbol _ | epsilon _ => exact h
  | optional _ _ | iteration _ _ | rerun _ _ _ => exact h.1
  | choice branches => cases branches <;> exact h.1

/-- All nodes of a row stand on its track. -/
theorem Track.onLine_rowCells {gap : Size α} (t : Track (Cell α)) : ∀ {top : α} {row : RowExtent α},
    t.StandsFrom gap top row → ∀ c ∈ t.rowCells, c.onLine (top + row.ascent) = c := by
  induction t using row_induction with
  | stop => exact fun _ => List.forall_mem_nil _
  | wrap c rest ih =>
    intro top row h
    have hrest := standsFrom_wrap h
    rw [rowCells]
    split
    case isTrue => exact List.forall_mem_nil _
    case isFalse hh =>
      rw [if_neg hh] at hrest
      exact ih hrest
  | before item rest hitem _ ih =>
    intro top row h
    obtain ⟨hstands, hrest⟩ := (standsFrom_before hitem).mp h
    rw [rowCells_before hitem]
    exact List.forall_mem_cons.mpr ⟨item.onLine_mark hitem hstands, ih hrest⟩

/-- The heights of a node on a track. -/
theorem Cell.heights_of_onLine {line : α} {c : Cell α} (h : c.onLine line = c) :
    c.box.line = line ∧ c.box.top = line - c.box.ascent ∧
      c.box.bottom = c.box.top + c.extent.height := by
  rw [← h]
  exact ⟨rfl, rfl, rfl⟩

/-! ## 4. The page of a layout -/

/-- **A node that is laid out:** it is of the kind that it is read as, has the size that the ruler
gives it, and stands on some track.  The three together are all that drawing needs to know of a
node. -/
structure Item.Fits (r : Ruler α) (item : Item (Cell α)) : Prop where
  proper : item.Proper (·.node.kind)
  sized : item.Sized r
  stands : ∃ line, item.Stands r.settings.componentGap line

/-- **A page that is laid out.**  Every compiled graph is laid out on such a page, whatever the
settings. -/
structure Track.LaidOut (r : Ruler α) (page : Track (Cell α)) : Prop where
  fits : ∀ item ∈ page.items, item.Fits r
  stands : page.StandsAt r.settings.componentGap r.settings.margin.top
  present : page.isStop = false
  led : page.Led
  onPage : ∀ c ∈ page.chain, c.box.onPage = true
  inside : page.Inside fun level => ∀ c ∈ level.chain, c.box.onPage = false

namespace Track

theorem measure_unplaced (gap : α) (t : Track (Cell α)) :
    (t.map Cell.unplaced).measure gap = t.measure gap := measureFrom_unplaced gap t _

theorem sameSize_unplaced {c : Cell α} {b : Box α} :
    c.unplaced.box.SameSize b ↔ c.box.SameSize b :=
  ⟨fun h => ⟨h.size, h.group, h.between, h.ascent⟩, fun h => ⟨h.size, h.group, h.between, h.ascent⟩⟩

/-- Where its nodes are has no part in the sizes of a node. -/
theorem sized_unplaced {r : Ruler α} {item : Item (Cell α)} :
    (item.map Cell.unplaced).Sized r ↔ item.Sized r := by
  cases item with
  | symbol _ | epsilon _ => exact sameSize_unplaced
  | wrap _ => exact Iff.rfl
  | optional _ _ | iteration _ _ =>
    rw [Item.map, Item.Sized, Item.Sized, sameSize_unplaced, measure_unplaced]
  | rerun _ _ _ =>
    rw [Item.map, Item.Sized, Item.Sized, sameSize_unplaced, measure_unplaced, measure_unplaced,
      isStop_map]
  | choice branches =>
    simp only [Item.map, Item.Sized, head_mapBranches, marks_mapBranches, levels_mapBranches,
      List.map_map, List.forall_mem_map, measure_unplaced]
    exact Iff.rfl

theorem sized_placed {r : Ruler α} {t : Track (Cell α)} (gap : Size α) (top : α) (row : RowExtent α)
    (h : ∀ item ∈ t.items, item.Sized r) : ∀ item ∈ (t.placed gap top row).items, item.Sized r := by
  have hsame : (∀ item ∈ ((t.placed gap top row).map Cell.unplaced).items, item.Sized r) ↔
      ∀ item ∈ (t.map Cell.unplaced).items, item.Sized r := by
    rw [unplaced_placed]
  simp only [items_map, List.forall_mem_map, sized_unplaced] at hsame
  exact hsame.mpr h

theorem led_map {β γ : Type} (f : β → γ) (t : Track β) : (t.map f).Led ↔ t.Led := by
  induction t using item_induction with
  | stop => exact Iff.rfl
  | before item rest _ ih =>
    cases item with
    | wrap _ =>
      simp only [Item.before, map, Led, isStop_map, ih]
    | _ => exact ih

/-- What a page's node is marked as does not change when the page is placed. -/
theorem onPage_placed (gap : Size α) (t : Track (Cell α)) (top : α) (row : RowExtent α) :
    (t.placed gap top row).map (·.box.onPage) = t.map (·.box.onPage) :=
  map_placed (fun _ _ _ _ => rfl) gap t top row

omit [Scalar α] in
theorem onPage_mapMarks (group : Size α) : ∀ bs : Branches (Cell α),
    mapBranches (·.box.onPage) (bs.mapMarks (·.mapBox ({ · with group })))
      = mapBranches (·.box.onPage) bs
  | .last _ _ => rfl
  | .more _ _ others => by
    rw [Branches.mapMarks, mapBranches, mapBranches, onPage_mapMarks group others]
    rfl

theorem onPage_rerunBox (r : Ruler α) (body : RowExtent α) (between : Option (RowExtent α)) :
    (r.rerunBox body between).onPage = false := by
  cases between <;> rfl

mutual

/-- Before the rows are set no node is marked as one of the page. -/
theorem onPage_sized (r : Ruler α) : ∀ t : Track Spot,
    (t.sized r).map (·.box.onPage) = t.map fun _ => false
  | .stop => rfl
  | .symbol _ rest | .epsilon _ rest | .wrap _ rest => by
    rw [sized, map, map, onPage_sized r rest]
    rfl
  | .optional _ body rest | .iteration _ body rest => by
    rw [sized, map, map, onPage_sized r body, onPage_sized r rest]
    rfl
  | .rerun _ body between rest => by
    rw [sized, map, map, onPage_sized r body, onPage_sized r between, onPage_sized r rest,
      onPage_rerunBox]
  | .choice branches rest => by
    rw [sized, map, map, onPage_sized r rest, onPage_mapMarks, onPage_sizedBranches r branches]

theorem onPage_sizedBranches (r : Ruler α) : ∀ bs : Branches Spot,
    mapBranches (·.box.onPage) (sizedBranches r bs) = mapBranches (fun _ => false) bs
  | .last _ body => by
    rw [sizedBranches, mapBranches, mapBranches, onPage_sized r body]
    rfl
  | .more _ body others => by
    rw [sizedBranches, mapBranches, mapBranches, onPage_sized r body, onPage_sizedBranches r others]
    rfl

end

end Track

/-- The rows of a layout are those of its page. -/
theorem Graph.rows_arranged (g : Graph) (r : Ruler α) :
    (g.arranged r).2 = (g.arranged r).1.rows r.settings.componentGap.width :=
  (Track.rows_placed _ _ _ _ _).symm

namespace Wrapped

variable {g₀ g : Graph} {t₀ : Track NodeId} {w : NodeId → Option NodeId}

omit [Scalar α] in
theorem led_behind (h : Wrapped g₀ t₀ g w) {id : NodeId} {node : Node} {rest : Track NodeId}
    (hn : g₀.arena id = some node) (hr : Linked Eq g₀.arena (.along none) node.exit rest)
    (hled : (rest.withWraps w).Led) : (Track.behind (w id) (rest.withWraps w)).Led := by
  cases hw : w id with
  | none => exact hled
  | some v =>
    refine ⟨?_, hled⟩
    cases rest with
    | stop =>
      obtain ⟨-, node', hn', hnext⟩ := h.owner id v hw
      obtain rfl := Option.some.inj (hn.symm.trans hn')
      have hend : none = node.next := congrArg Exit.next hr
      rw [← hend] at hnext
      cases hnext
    | _ => rfl

omit [Scalar α] in
/-- Wraps are only put before something. -/
theorem led (h : Wrapped g₀ t₀ g w) : ∀ {t : Track NodeId} {into : Exit},
    Linked Eq g₀.arena (.along none) into t → t.WrapFree → (t.withWraps w).Led
  | .stop, _, _, _ => trivial
  | .wrap _ _, _, _, hfree => hfree.elim
  | .symbol _ _, _, ⟨_, _, hn, _, _, hr⟩, hfree | .epsilon _ _, _, ⟨_, _, hn, _, hr⟩, hfree =>
    h.led_behind hn hr (h.led hr hfree)
  | .optional _ _ _, _, ⟨_, _, hn, _, _, hr⟩, ⟨_, hfree⟩
  | .iteration _ _ _, _, ⟨_, _, hn, _, _, hr⟩, ⟨_, hfree⟩
  | .choice _ _, _, ⟨_, _, hn, _, _, hr⟩, ⟨_, hfree⟩ =>
    h.led_behind hn hr (h.led hr hfree)
  | .rerun _ _ _ _, _, ⟨_, _, hn, _, _, _, hr⟩, ⟨_, _, hfree⟩ =>
    h.led_behind hn hr (h.led hr hfree)

omit [Scalar α] in
/-- The nodes of a graph with wraps are of the kinds that they are read as. -/
theorem items_proper (hbare : g₀.Bare t₀) (h : Wrapped g₀ t₀ g w) :
    ∀ item ∈ g.track.items, item.Proper (·.node.kind) := by
  rw [h.track_eq hbare, Track.items_map, List.forall_mem_map]
  intro item hitem
  refine (Item.proper_map item).mpr ((h.hasTree hbare).linked.items_proper ?_ item hitem)
  rw [Track.inner_withWraps]
  exact fun level => Track.wrapFree_of_mem_inner t₀ hbare.wrapFree

/-- **The page of a layout is laid out,** whatever layouts came before and whatever comes of this
one. -/
theorem laidOut (hbare : g₀.Bare t₀) (h : Wrapped g₀ t₀ g w) (r : Ruler α) :
    (g.arranged r).1.LaidOut r := by
  obtain ⟨w', h'⟩ := h.exists_breakRows hbare r
  have hspots := g.spots_arranged r
  have htrack := h'.track_eq hbare
  have hproper := h'.items_proper hbare
  rw [← hspots, Track.items_map, List.forall_mem_map] at hproper
  have hsized : ∀ item ∈ (g.arranged r).1.items, item.Sized r := by
    rw [Graph.arranged, Graph.arrange_eq]
    exact Track.sized_placed _ _ _ (Track.sized_frozenFrom _ _ (Track.items_sized r _))
  have hstands : (g.arranged r).1.StandsAt r.settings.componentGap r.settings.margin.top := by
    rw [Track.StandsAt, Track.StandsFrom, Graph.arranged, Graph.arrange_eq, Track.measure_placed,
      Track.placed_placed]
  constructor
  case fits =>
    intro item hitem
    exact ⟨(Item.proper_map (f := Cell.toSpot) item).mp (hproper item hitem), hsized item hitem,
      Track.items_stand _ hstands item hitem⟩
  case stands => exact hstands
  case present =>
    rw [← Track.isStop_map Cell.toSpot, hspots, htrack, Track.isStop_map]
    have hlinked := (h'.hasTree hbare).linked
    generalize t₀.withWraps w' = t at hlinked
    cases t with
    | stop => exact absurd (hlinked.2 rfl) (by simp [Exit.along])
    | _ => rfl
  case led =>
    rw [← Track.led_map Cell.toSpot, hspots, htrack, Track.led_map]
    exact h'.led hbare.linked hbare.wrapFree
  case onPage =>
    have hchain : ∀ b ∈ ((g.arranged r).1.map (·.box.onPage)).chain, b = true := by
      rw [Graph.arranged, Graph.arrange_eq, Track.onPage_placed, Track.chain_map, List.forall_mem_map]
      exact Track.onPage_frozenFrom _ _
    rwa [Track.chain_map, List.forall_mem_map] at hchain
  case inside =>
    let off : Track Bool → Prop := fun flags => ∀ b ∈ flags.chain, b = false
    have hsized : ((g.breakRows r).1.track.sized r).Inside fun level =>
        off (level.map (·.box.onPage)) := by
      refine Track.inside_map.mp ?_
      rw [Track.onPage_sized, Track.inside_map]
      intro item _ level _ b hb
      rw [Track.chain_map] at hb
      obtain ⟨_, -, rfl⟩ := List.mem_map.mp hb
      rfl
    have hinside : (g.arranged r).1.Inside fun level => off (level.map (·.box.onPage)) := by
      refine Track.inside_map.mp ?_
      rw [Graph.arranged, Graph.arrange_eq, Track.onPage_placed, Track.inside_map]
      exact Track.levels_frozenFrom _ _ hsized
    simpa only [off, Track.chain_map, List.forall_mem_map] using hinside

end Wrapped

/-- **The page of a compiled graph is laid out,** whatever layouts the graph has been through. -/
theorem Build.laidOut_of_compile {registry : Registry} {collapsing : Bool} {p : Production}
    {g : Graph} (h : (compile registry collapsing p).1 = .ok g) (rulers : List (Ruler α))
    (r : Ruler α) : ((g.afterLayouts rulers).arranged r).1.LaidOut r := by
  obtain ⟨t, hbare⟩ := bare_of_compile h
  obtain ⟨w, hw⟩ := (Wrapped.refl g t).afterLayouts hbare rulers
  exact hw.laidOut hbare r

/-- **The page of a compiled graph has the nodes of the graph** as the layout leaves it, each of the
kind that it is read as. -/
theorem Build.page_of_compile {registry : Registry} {collapsing : Bool} {p : Production}
    {g g' : Graph} (h : (compile registry collapsing p).1 = .ok g) (rulers : List (Ruler α))
    {r : Ruler α} {l : Layout α} (hl : (g.afterLayouts rulers).layout r = (.ok l, g')) :
    ∃ t, g'.HasTree Exit.Similar t ∧ l.track.map Cell.toSpot = g'.track ∧
      ∀ item ∈ l.track.items, item.Proper (·.node.kind) := by
  obtain ⟨t, hbare⟩ := bare_of_compile h
  obtain ⟨w, hw⟩ := (Wrapped.refl g t).afterLayouts hbare rulers
  obtain ⟨w', hw'⟩ := hw.exists_breakRows hbare r
  have hbroken : ((g.afterLayouts rulers).breakRows r).1 = g' := by rw [← Graph.layout_snd, hl]
  have htrack := (Graph.layout_ok (congrArg Prod.fst hl)).1
  rw [hbroken] at hw'
  refine ⟨t.withWraps w', hw'.hasTree hbare, ?_, fun item hitem => ?_⟩
  · rw [htrack, ← hbroken]
    exact Graph.spots_arranged _ r
  · exact ((hw.laidOut hbare r).fits item (htrack ▸ hitem)).proper

end Railroad
