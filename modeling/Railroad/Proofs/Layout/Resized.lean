/-
# The second size pass

A layout sizes its graph, sets the rows of the page and then sizes the graph once more.  The second
pass finds every box as the first one left it (`resized_frozen`):

* it passes over wraps, and only those were given a height in between;
* what a row is measured by is the size and the ascent of its nodes, and setting rows leaves those
  of all other nodes alone;
* inside a node there is nothing that setting rows could have changed at all, for it runs along the
  top level only, so there the second pass repeats the first (`resized_sized`).

So all that a layout does after the rows are set, which is to measure the rows again and to place
the nodes, works with the sizes that the rows were set by (`Graph.arrange_eq`).

The other question about the passes is what they begin with.  Before the first pass every box is
reset.  Over boxes that were reset, whatever they had been, the pass gives the sizes that
`Track.sized` gives without any (`resized_reset`): nothing that an earlier layout stored can reach a
later one.
-/
import Railroad.Layout.Page
import Railroad.Proofs.Graph.Track

namespace Railroad

open Scalar

variable {α : Type}

/-- Nothing is known of the node's box any more. -/
def Cell.reset [Scalar α] (c : Cell α) : Cell α := c.mapBox fun _ => .zero

theorem Box.resizeRerun_self (b : Box α) (between : Bool) : b.resizeRerun b between = b := by
  cases between <;> rfl

/-- To be on the page does not keep a rerun from having the sizes it has. -/
theorem Box.resizeRerun_onPage (b : Box α) (between : Bool) :
    ({ b with onPage := true } : Box α).resizeRerun b between = { b with onPage := true } := by
  cases between <;> rfl

/-- A rerun that had no box is given the one that is found. -/
theorem Ruler.resizeRerun_zero [Scalar α] (r : Ruler α) (body : RowExtent α)
    (between : Track (Cell α)) (gap : α) :
    let box := r.rerunBox body (if between.isStop then none else some (between.measure gap))
    Box.zero.resizeRerun box (!between.isStop) = box := by
  cases between.isStop <;> rfl

/-! ## 1. Branches and what they have in common -/

theorem Branches.marks_mapMarks {β : Type} (f : β → β) (bs : Branches β) :
    (bs.mapMarks f).marks = bs.marks.map f := by
  cases bs with
  | last _ _ => rfl
  | more b _ others => exact congrArg (f b :: ·) (marks_mapMarks f others)

namespace Track

/-- The size of an alternation is that of its branches, whatever it was before. -/
theorem sizes_setGroup (group : Size α) (bs : Branches (Cell α)) :
    (bs.mapMarks (·.mapBox fun box => { box with group })).marks.map (·.box.size)
      = bs.marks.map (·.box.size) := by
  rw [Branches.marks_mapMarks, List.map_map]
  rfl

theorem setGroup_setGroup (group group' : Size α) : ∀ bs : Branches (Cell α),
    (bs.mapMarks (·.mapBox fun box => { box with group })).mapMarks
        (·.mapBox fun box => { box with group := group' })
      = bs.mapMarks (·.mapBox fun box => { box with group := group' })
  | .last _ _ => rfl
  | .more _ _ others => by
    simp only [Branches.mapMarks, setGroup_setGroup group group' others]
    rfl

theorem sizes_onPage (bs : Branches (Cell α)) :
    (bs.mapHead frozenFrom.onPage).marks.map (·.box.size) = bs.marks.map (·.box.size) := by
  cases bs <;> rfl

theorem setGroup_onPage (group : Size α) (bs : Branches (Cell α)) :
    (bs.mapHead frozenFrom.onPage).mapMarks (·.mapBox fun box => { box with group })
      = (bs.mapMarks (·.mapBox fun box => { box with group })).mapHead frozenFrom.onPage := by
  cases bs <;> rfl

/-! ## 2. Inside a node -/

variable [Scalar α]

mutual

/-- **Sizing a level again gives the sizes it has.** -/
theorem resized_sized (r : Ruler α) : ∀ t : Track Spot, (t.sized r).resized r = t.sized r
  | .stop => rfl
  | .symbol b rest | .epsilon b rest => by
    rw [sized, resized, resized_sized r rest]
    rfl
  | .wrap b rest => by rw [sized, resized, resized_sized r rest]
  | .optional b body rest | .iteration b body rest => by
    rw [sized, resized, resized_sized r body, resized_sized r rest]
    rfl
  | .rerun b body between rest => by
    rw [sized, resized, resized_sized r body, resized_sized r between, resized_sized r rest,
      Cell.mapBox, Box.resizeRerun_self]
  | .choice branches rest => by
    rw [sized, resized, resized_sized r rest, resizedBranches_sized r, sizes_setGroup,
      setGroup_setGroup]

/-- Sizing branches again gives the sizes they have, in whatever alternation they are. -/
theorem resizedBranches_sized (r : Ruler α) : ∀ (bs : Branches Spot) {group : Size α},
    resizedBranches r ((sizedBranches r bs).mapMarks (·.mapBox fun box => { box with group }))
      = (sizedBranches r bs).mapMarks (·.mapBox fun box => { box with group })
  | .last b body, _ => by
    rw [sizedBranches, Branches.mapMarks, resizedBranches, resized_sized r body]
    rfl
  | .more b body others, _ => by
    rw [sizedBranches, Branches.mapMarks, resizedBranches, resized_sized r body,
      resizedBranches_sized r others]
    rfl

end

/-! ## 3. Along the page -/

/-- Whether its head is on the page says nothing about the sizes in an alternation. -/
theorem resizedBranches_onPage (r : Ruler α) (bs : Branches (Cell α)) :
    resizedBranches r (bs.mapHead frozenFrom.onPage)
      = (resizedBranches r bs).mapHead frozenFrom.onPage := by
  cases bs <;> rfl

/-- The walk along a page that sets its rows, from any row on. -/
theorem resized_frozenFrom (r : Ruler α) (used : NodeId → Bool) : ∀ (t : Track Spot) (row : RowExtent α),
    ((t.sized r).frozenFrom used row).resized r = (t.sized r).frozenFrom used row
  | .stop, _ => rfl
  | .wrap b rest, row => by
    rw [sized, frozenFrom]
    split
    · rw [resized, resized_frozenFrom r used rest]
    · rw [resized, resized_frozenFrom r used rest]
  | .symbol b rest, row | .epsilon b rest, row => by
    rw [sized, frozenFrom, resized, resized_frozenFrom r used rest]
    rfl
  | .optional b body rest, row | .iteration b body rest, row => by
    rw [sized, frozenFrom, resized, resized_frozenFrom r used rest, resized_sized r body]
    rfl
  | .rerun b body between rest, row => by
    rw [sized, frozenFrom, resized, resized_frozenFrom r used rest, resized_sized r body,
      resized_sized r between]
    simp only [frozenFrom.onPage, Cell.mapBox, Box.resizeRerun_onPage]
  | .choice branches rest, row => by
    rw [sized, frozenFrom, resized, resized_frozenFrom r used rest, resizedBranches_onPage,
      resizedBranches_sized, sizes_onPage, sizes_setGroup, setGroup_onPage, setGroup_setGroup]

/-- **The second size pass changes nothing.** -/
theorem resized_frozen (r : Ruler α) (used : NodeId → Bool) (t : Track Spot) :
    ((t.sized r).frozen used).resized r = (t.sized r).frozen used := resized_frozenFrom r used t _

/-! ## 4. What an earlier layout left -/

mutual

/-- **Over boxes that were reset the pass gives the sizes of nodes without any.** -/
theorem resized_reset (r : Ruler α) : ∀ t : Track (Cell α),
    (t.map Cell.reset).resized r = (t.map Cell.toSpot).sized r
  | .stop => rfl
  | .symbol c rest | .epsilon c rest | .wrap c rest => by
    rw [map, map, resized, sized, resized_reset r rest]
    rfl
  | .optional c body rest | .iteration c body rest => by
    rw [map, map, resized, sized, resized_reset r body, resized_reset r rest]
    rfl
  | .rerun c body between rest => by
    rw [map, map, resized, sized, resized_reset r body, resized_reset r between,
      resized_reset r rest]
    rw [Cell.reset, Cell.mapBox, Cell.mapBox, Ruler.resizeRerun_zero]
  | .choice branches rest => by
    rw [map, map, resized, sized, resized_reset r rest, resizedBranches_reset r branches]

theorem resizedBranches_reset (r : Ruler α) (bs : Branches (Cell α)) :
    resizedBranches r (mapBranches Cell.reset bs)
      = sizedBranches r (mapBranches Cell.toSpot bs) := by
  cases bs with
  | last c body =>
    rw [mapBranches, mapBranches, resizedBranches, sizedBranches, resized_reset r body]
    rfl
  | more c body others =>
    rw [mapBranches, mapBranches, resizedBranches, sizedBranches, resized_reset r body,
      resizedBranches_reset r others]
    rfl

end

end Track

/-- **The tree of a page** is placed with the sizes that its rows were set by. -/
theorem Graph.arrange_eq [Scalar α] (g : Graph) (r : Ruler α) (used : List NodeId) :
    let gap := r.settings.componentGap
    let page := (g.track.sized r).frozen used.contains
    g.arrange r used
      = (page.placed gap r.settings.margin.top (page.measure gap.width), page.rows gap.width) := by
  rw [arrange, Track.resized_frozen]

end Railroad
