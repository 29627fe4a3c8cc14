/-
# Pages and the nodes of their graph

A layout gives the nodes of a tree their boxes and leaves everything else about them alone
(`spots_sized`, `spots_frozen`, `spots_placed`).  In the order of the array every node of a graph is
there once, with the box it has on the page (`cells_getElem?`).

The boxes of a layout come out of a tree and are put into an array by place.  Since a tree of a
graph has each place once, nothing is overwritten, and no node is left with the box that was there
before.
-/
import Railroad.Proofs.Layout.Idle
import Railroad.Proofs.Graph.Linked
import Railroad.Proofs.Layout.Resized

namespace Railroad

open Scalar

variable {α : Type}

/-! ## 1. Lists of cells -/

/-- Boxes that are put at other places do not show at a place. -/
theorem getElem?_foldl_of_notMem : ∀ (cs : List (Cell α)) (boxes : Array (Box α)) (id : Nat),
    id ∉ cs.map (·.id) →
    (cs.foldl (fun boxes c => boxes.setIfInBounds c.id c.box) boxes)[id]? = boxes[id]?
  | [], _, _, _ => rfl
  | c :: cs, boxes, id, hid => by
    simp only [List.map_cons, List.mem_cons, not_or] at hid
    rw [List.foldl_cons, getElem?_foldl_of_notMem cs _ id hid.2]
    exact Array.getElem?_setIfInBounds_ne (Ne.symm hid.1)

/-- A box that is put at a place is there, if no other is put there. -/
theorem getElem?_foldl_of_mem : ∀ (cs : List (Cell α)) (boxes : Array (Box α)) (c : Cell α),
    (cs.map (·.id)).Nodup → c ∈ cs → c.id < boxes.size →
    (cs.foldl (fun boxes c => boxes.setIfInBounds c.id c.box) boxes)[c.id]? = some c.box
  | [], _, _, _, hc, _ => absurd hc List.not_mem_nil
  | first :: cs, boxes, c, hnodup, hc, hlt => by
    rw [List.map_cons, List.nodup_cons] at hnodup
    rw [List.foldl_cons]
    rcases List.mem_cons.mp hc with rfl | hc
    · rw [getElem?_foldl_of_notMem cs _ c.id hnodup.1]
      exact Array.getElem?_setIfInBounds_self_of_lt hlt
    · exact getElem?_foldl_of_mem cs _ c hnodup.2 hc (by simpa using hlt)

/-- Where something is found for each of a list, it is found in order. -/
theorem map_some_filterMap {β γ : Type} {f : β → Option γ} : ∀ {bs : List β},
    (∀ b ∈ bs, ∃ c, f b = some c) → (bs.filterMap f).map some = bs.map f
  | [], _ => rfl
  | b :: bs, h => by
    obtain ⟨c, hc⟩ := h b List.mem_cons_self
    rw [List.filterMap_cons, hc, List.map_cons, List.map_cons, hc,
      map_some_filterMap fun x hx => h x (List.mem_cons_of_mem _ hx)]

namespace Track

/-! ## 2. Boxes are all that changes -/

theorem spots_mapMarks (change : Box α → Box α) : ∀ bs : Branches (Cell α),
    mapBranches Cell.toSpot (bs.mapMarks (·.mapBox change)) = mapBranches Cell.toSpot bs
  | .last _ _ => rfl
  | .more c body others => by
    rw [Branches.mapMarks, mapBranches, mapBranches, spots_mapMarks change others]
    rfl

theorem spots_mapHead_onPage (bs : Branches (Cell α)) :
    mapBranches Cell.toSpot (bs.mapHead frozenFrom.onPage) = mapBranches Cell.toSpot bs := by
  cases bs <;> rfl

variable [Scalar α]

mutual

theorem spots_sized (r : Ruler α) : ∀ t : Track Spot, (t.sized r).map Cell.toSpot = t
  | .stop => rfl
  | .symbol b rest | .epsilon b rest | .wrap b rest => by
    rw [sized, map, spots_sized r rest]
  | .optional b body rest | .iteration b body rest => by
    rw [sized, map, spots_sized r body, spots_sized r rest]
  | .rerun b body between rest => by
    rw [sized, map, spots_sized r body, spots_sized r between, spots_sized r rest]
  | .choice branches rest => by
    rw [sized, map, spots_sized r rest, spots_mapMarks, spots_sizedBranches r branches]

theorem spots_sizedBranches (r : Ruler α) : ∀ bs : Branches Spot,
    mapBranches Cell.toSpot (sizedBranches r bs) = bs
  | .last b body => by
    rw [sizedBranches, mapBranches, spots_sized r body]
  | .more b body others => by
    rw [sizedBranches, mapBranches, spots_sized r body, spots_sizedBranches r others]

end

theorem spots_frozenFrom (used : NodeId → Bool) : ∀ (t : Track (Cell α)) (row : RowExtent α),
    (t.frozenFrom used row).map Cell.toSpot = t.map Cell.toSpot
  | .stop, _ => rfl
  | .wrap c rest, row => by
    rw [frozenFrom]
    split
    · rw [map, map, spots_frozenFrom used rest]
      rfl
    · rw [map, map, spots_frozenFrom used rest]
      rfl
  | .symbol c rest, row | .epsilon c rest, row | .optional c _ rest, row | .iteration c _ rest, row
  | .rerun c _ _ rest, row => by
    rw [frozenFrom, map, map, spots_frozenFrom used rest]
    rfl
  | .choice branches rest, row => by
    rw [frozenFrom, map, map, spots_frozenFrom used rest, spots_mapHead_onPage]

theorem spots_frozen (used : NodeId → Bool) (t : Track (Cell α)) :
    (t.frozen used).map Cell.toSpot = t.map Cell.toSpot := spots_frozenFrom used t _

/-- What a function sees of cells, if it does not see their heights on the page. -/
def Placeless {γ : Type} (f : Cell α → γ) : Prop :=
  ∀ (c : Cell α) (top line bottom : α), f (c.mapBox (·.place top line bottom)) = f c

mutual

/-- **Placing a level changes nothing but heights.** -/
theorem map_placed {γ : Type} {f : Cell α → γ} (hf : Placeless f) (gap : Size α) :
    ∀ (t : Track (Cell α)) (top : α) (row : RowExtent α), (t.placed gap top row).map f = t.map f
  | .stop, _, _ => by rw [placed]
  | .wrap c rest, top, row => by
    rw [placed]
    split <;> rw [map, map, map_placed hf gap rest, hf]
  | .symbol c rest, top, row | .epsilon c rest, top, row => by
    rw [placed, map, map, map_placed hf gap rest, Cell.onLine, hf]
  | .optional c body rest, top, row | .iteration c body rest, top, row => by
    rw [placed, map, map, map_placed hf gap body, map_placed hf gap rest, Cell.onLine, hf]
  | .rerun c body between rest, top, row => by
    rw [placed, map, map, map_placed hf gap body, map_placed hf gap between, map_placed hf gap rest,
      Cell.onLine, hf]
  | .choice (.last c body) rest, top, row => by
    rw [placed, map, map, mapBranches, mapBranches, map_placed hf gap body, map_placed hf gap rest,
      Cell.onLine, hf]
  | .choice (.more c body others) rest, top, row => by
    rw [placed, map, map, mapBranches, mapBranches, map_placed hf gap body, map_placed hf gap rest,
      mapBranches_placedBranches hf gap others, Cell.onLine, hf]

theorem mapBranches_placedBranches {γ : Type} {f : Cell α → γ} (hf : Placeless f) (gap : Size α) :
    ∀ (bs : Branches (Cell α)) (top : α),
    mapBranches f (placedBranches gap top bs) = mapBranches f bs
  | .last c body, top => by
    rw [placedBranches, mapBranches, mapBranches, map_placed hf gap body, Cell.below, hf]
  | .more c body others, top => by
    rw [placedBranches, mapBranches, mapBranches, map_placed hf gap body,
      mapBranches_placedBranches hf gap others, Cell.below, hf]

end

theorem spots_placed (gap : Size α) (t : Track (Cell α)) (top : α) (row : RowExtent α) :
    (t.placed gap top row).map Cell.toSpot = t.map Cell.toSpot :=
  map_placed (fun _ _ _ _ => rfl) gap t top row

end Track

namespace Graph

/-! ## 3. The boxes of a graph -/

variable {g : Graph} {t : Track NodeId} {page : Track (Cell α)}

/-- The places of a page. -/
theorem ids_page (h : g.HasTree Exit.Similar t) (hpage : page.map Cell.toSpot = g.track) :
    page.toList.map (·.id) = t.toList := by
  have hspots := congrArg Track.toList hpage
  rw [h.track_eq, Track.toList_map, Track.toList_map] at hspots
  have hids := congrArg (List.map Spot.id) hspots
  rw [List.map_map, List.map_map] at hids
  simpa [Function.comp_def] using hids

/-- The node of a cell is the one at its place. -/
theorem node_page (h : g.HasTree Exit.Similar t) (hpage : page.map Cell.toSpot = g.track)
    {c : Cell α} (hc : c ∈ page.toList) : g.arena c.id = some c.node := by
  have hmem : c.toSpot ∈ g.track.toList := by
    rw [← hpage, Track.toList_map]
    exact List.mem_map.mpr ⟨c, hc, rfl⟩
  rw [h.track_eq, Track.toList_map] at hmem
  obtain ⟨id, hid, hspot⟩ := List.mem_map.mp hmem
  obtain ⟨node, hn⟩ := h.node_of_mem hid
  rw [← hspot, spotAt_id, spotAt_node hn, hn]

/-- A page is the tree of its graph with the cells that are found at its places. -/
theorem page_eq_map (h : g.HasTree Exit.Similar t) (hpage : page.map Cell.toSpot = g.track)
    {f : NodeId → Cell α} (hf : ∀ c ∈ page.toList, f c.id = c) : page = t.map f := by
  let cell : Spot → Cell α := fun spot => f spot.id
  calc
    page = page.map fun c => f c.id := (Track.map_eq_self page hf).symm
    _ = (page.map Cell.toSpot).map cell := (Track.map_map Cell.toSpot cell page).symm
    _ = (t.map g.spotAt).map cell := by rw [hpage, h.track_eq]
    _ = t.map f := Track.map_map g.spotAt cell t

variable [Scalar α]

/-- The page of a graph has its nodes. -/
theorem spots_arrange (g : Graph) (r : Ruler α) (used : List NodeId) :
    (g.arrange r used).1.map Cell.toSpot = g.track := by
  rw [arrange_eq, Track.spots_placed, Track.spots_frozen, Track.spots_sized]

/-- **In the order of the array** each node of a graph is at its place, with the box it has on the
page. -/
theorem cells_getElem? (h : g.HasTree Exit.Similar t) (hpage : page.map Cell.toSpot = g.track)
    {c : Cell α} (hc : c ∈ page.toList) : (g.cells page)[c.id]? = some c := by
  have hids := ids_page h hpage
  have hlt : ∀ x ∈ page.toList, x.id < g.nodes.size := fun x hx =>
    (h.mem_iff x.id).mp (hids ▸ List.mem_map.mpr ⟨x, hx, rfl⟩)
  have hbox : ∀ x ∈ page.toList, (page.toList.foldl (fun boxes c => boxes.setIfInBounds c.id c.box)
      (Array.replicate g.nodes.size Box.zero))[x.id]? = some x.box := by
    intro x hx
    refine getElem?_foldl_of_mem _ _ x (hids ▸ h.nodup) hx ?_
    simpa using hlt x hx
  have hnode : ∀ x ∈ page.toList, g.nodes[x.id]? = some x.node := fun x hx => node_page h hpage hx
  have hall : ∀ id ∈ List.range g.nodes.size, ∃ x, (do
      return { id, node := ← g.nodes[id]?, box := ← (page.toList.foldl
        (fun boxes c => boxes.setIfInBounds c.id c.box)
        (Array.replicate g.nodes.size Box.zero))[id]? } : Option (Cell α)) = some x := by
    intro id hid
    have hmem : id ∈ page.toList.map (·.id) := hids ▸ (h.mem_iff id).mpr (List.mem_range.mp hid)
    obtain ⟨x, hx, rfl⟩ := List.mem_map.mp hmem
    exact ⟨x, by simp [hnode x hx, hbox x hx]⟩
  have hmap := congrArg (·[c.id]?) (map_some_filterMap hall)
  simp only [List.getElem?_map, List.getElem?_range (hlt c hc), Option.map_some] at hmap
  obtain ⟨x, hx, hsome⟩ := Option.map_eq_some_iff.mp hmap
  rw [cells]
  simp only [hx]
  simpa [hnode c hc, hbox c hc] using hsome

/-- The cell that is found at a place is one of the page. -/
theorem exists_cell (h : g.HasTree Exit.Similar t) (hpage : page.map Cell.toSpot = g.track)
    {id : Nat} {node : Node} (hn : g.arena id = some node) :
    ∃ c, (g.cells page)[id]? = some c ∧ c ∈ page.toList ∧ c.id = id ∧ c.node = node := by
  have hmem : id ∈ page.toList.map (·.id) := by
    rw [ids_page h hpage, h.mem_iff]
    exact (Array.getElem?_eq_some_iff.mp hn).1
  obtain ⟨c, hc, rfl⟩ := List.mem_map.mp hmem
  exact ⟨c, cells_getElem? h hpage hc, hc, rfl,
    Option.some.inj ((node_page h hpage hc).symm.trans hn)⟩

end Graph

end Railroad
