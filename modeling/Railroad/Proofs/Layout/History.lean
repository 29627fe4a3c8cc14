/-
# Laying out a graph again

A layout leaves wraps behind in the graph, which the next one finds there.  They make no difference:
rows are broken at the same nodes (`Wrapped.rowBreaks_eq`), and the page is the same but for wraps
that break nothing (`Wrapped.arranged_tidy`).  So the boxes of the compiled nodes, the ends of the
rows and the extent of the page do not depend on the layouts before, and a layout that is done
twice changes nothing the second time (`layout_afterLayouts`).

The proof compares a graph that layouts have changed with the compiled one, never two changed ones
with each other.  `Wrapped` says what the graph has become, and three things are shown of it in
order: that before the rows are set its page is that of the compiled graph without wraps
(`tidy_sized`), that therefore rows are broken at the same nodes (`rowBreaks_eq`), and that after
the rows are set the pages agree but for wraps that break nothing (`arranged_tidy`).

All of it holds for every scalar.  The one thing asked of numbers is that zero is not less than
itself.
-/
import Mathlib
import Railroad.Proofs.Build.Faults
import Railroad.Proofs.Layout.Sizes
import Railroad.Standard

namespace Railroad

open Scalar

variable {α : Type} [Scalar α]

/-! ## 1. A layout and its parts -/

namespace Graph

/-- The nodes that rows of the page end after. -/
def rowBreaks (g : Graph) (r : Ruler α) : List NodeId :=
  match r.settings.pageWidth with
  | none => []
  | some limit => Stop.breaks limit ((g.track.sized r).stops r.settings.componentGap.width)

theorem breakRows_eq (g : Graph) (r : Ruler α) :
    g.breakRows r = g.breakAfterAll (g.rowBreaks r) := by
  rw [breakRows, rowBreaks]
  cases r.settings.pageWidth <;> rfl

/-- The page of a graph and its rows, as a layout arranges them. -/
def arranged (g : Graph) (r : Ruler α) : Track (Cell α) × List (RowExtent α) :=
  (g.breakRows r).1.arrange r (g.breakRows r).2

/-- **The nodes of a graph with the boxes that a layout gives them,** also if it ends in an error.
They are in the order of their places in the graph, wraps among them. -/
def laidOut (g : Graph) (r : Ruler α) : List (Cell α) := (g.breakRows r).1.cells (g.arranged r).1

/-- The page of a layout has the nodes of the graph with its rows broken. -/
theorem spots_arranged (g : Graph) (r : Ruler α) :
    (g.arranged r).1.map Cell.toSpot = (g.breakRows r).1.track :=
  spots_arrange _ r _

/-- Whatever comes of a layout, the wraps stay in the graph. -/
theorem layout_snd (g : Graph) (r : Ruler α) : (g.layout r).2 = (g.breakRows r).1 := by
  unfold layout
  simp only
  split <;> rfl

/-- A layout that succeeds has the rows of the page, and its size from them. -/
theorem layout_ok {g : Graph} {r : Ruler α} {l : Layout α} (h : (g.layout r).1 = .ok l) :
    l.track = (g.arranged r).1 ∧ l.rows = (g.arranged r).2 ∧
      (l.content, l.size) = r.settings.page (g.arranged r).2 := by
  unfold layout at h
  simp only at h
  split at h
  · cases h
  · cases h
    exact ⟨rfl, rfl, rfl⟩

/-- A layout is an error because of the first box that cannot be drawn. -/
theorem layout_error_iff {g : Graph} {r : Ruler α} {e : GeometryError α} :
    (g.layout r).1 = .error e ↔ (g.laidOut r).findSome? (fun c =>
      c.misfit?.map (GeometryError.mk c.node.serial c.node.kind)) = some e := by
  unfold layout
  simp only
  split
  case h_1 e' he =>
    have he : (g.laidOut r).findSome? _ = some e' := he
    rw [he]
    simp
  case h_2 he =>
    have he : (g.laidOut r).findSome? _ = none := he
    rw [he]
    simp

/-- **A layout succeeds if all boxes can be drawn,** and only then. -/
theorem exists_layout_iff {g : Graph} {r : Ruler α} :
    (∃ l, (g.layout r).1 = .ok l) ↔ ∀ c ∈ g.laidOut r, c.misfit? = none := by
  constructor
  · rintro ⟨l, hl⟩ c hc
    have hnone : ¬((g.laidOut r).findSome? fun c =>
        c.misfit?.map (GeometryError.mk c.node.serial c.node.kind)).isSome = true := by
      intro hsome
      obtain ⟨e, he⟩ := Option.isSome_iff_exists.mp hsome
      rw [← layout_error_iff, hl] at he
      cases he
    rw [List.findSome?_isSome_iff] at hnone
    cases hmisfit : c.misfit? with
    | none => rfl
    | some m => exact absurd ⟨c, hc, by rw [hmisfit]; rfl⟩ hnone
  · intro h
    cases hl : (g.layout r).1 with
    | ok l => exact ⟨l, rfl⟩
    | error e =>
      obtain ⟨c, hc, he⟩ := List.exists_of_findSome?_eq_some (layout_error_iff.mp hl)
      rw [h c hc] at he
      cases he

/-- The graph after some layouts, whatever came of them. -/
def afterLayouts (g : Graph) (rulers : List (Ruler α)) : Graph :=
  rulers.foldl (fun g r => (g.layout r).2) g

end Graph

namespace Cell

/-- **A row ends after a node:** what follows it is a wrap with a height.  That is how it shows in a
layout which wraps were used. -/
def endsRow (cells : List (Cell α)) (id : NodeId) : Bool :=
  ((cells[id]?).bind fun c => c.node.next.bind fun next => cells[next]?).any Cell.breaks

theorem endsRow_iff {cells : List (Cell α)} {id : NodeId} : endsRow cells id = true ↔
    ∃ c next after, cells[id]? = some c ∧ c.node.next = some next ∧ cells[next]? = some after ∧
      after.breaks = true := by
  simp only [endsRow, Option.any_eq_true, Option.bind_eq_some_iff]
  constructor
  · rintro ⟨after, ⟨c, hc, next, hnext, hafter⟩, hbreaks⟩
    exact ⟨c, next, after, hc, hnext, hafter, hbreaks⟩
  · rintro ⟨c, next, after, hc, hnext, hafter, hbreaks⟩
    exact ⟨after, ⟨c, hc, next, hnext, hafter⟩, hbreaks⟩

theorem kind_of_breaks {c : Cell α} (h : c.breaks = true) : c.node.kind = .wrap :=
  beq_iff_eq.mp ((Bool.and_eq_true _ _).mp h).1

end Cell

/-! ## 2. The page of a graph with wraps -/

/-- The page of a graph with breaks after the nodes that are marked. -/
def Graph.pageWith (g : Graph) (t : Track NodeId) (r : Ruler α) (marked : NodeId → Bool) :
    Track (Cell α) :=
  (((t.map g.spotAt).sized r).withWraps (Track.wrapIf marked)).breaking fun _ => true

/-- **The page of a compiled graph with its rows set.** -/
def Graph.rowPage (g : Graph) (t : Track NodeId) (r : Ruler α) : Track (Cell α) :=
  ((g.pageWith t r (g.rowBreaks r).contains).frozen fun _ => true).tidy

namespace Track

theorem stops_behind (gap : α) {r : Ruler α} {f : NodeId → Spot} (wrap : Option NodeId)
    (rest : Track NodeId) :
    (((behind wrap rest).map f).sized r).stops gap = ((rest.map f).sized r).stops gap := by
  cases wrap <;> rfl

/-- A row may have to end after any node of the level, but not after a wrap. -/
theorem stops_withWraps (gap : α) {g : Graph} {r : Ruler α} {w : NodeId → Option NodeId} :
    ∀ t : Track NodeId, t.WrapFree →
    ((((t.withWraps w).map g.spotAt).sized r).stops gap).map (·.id) = t.chain
  | .stop, _ => rfl
  | .wrap _ _, h => h.elim
  | .symbol _ rest, h | .epsilon _ rest, h | .optional _ _ rest, ⟨_, h⟩
  | .iteration _ _ rest, ⟨_, h⟩ | .rerun _ _ _ rest, ⟨_, _, h⟩ => by
    have ih := stops_withWraps gap (g := g) (r := r) (w := w) rest h
    simp only [withWraps, map, sized, stops, stops_behind, List.map_cons, ih, stops.plain, chain,
      Graph.spotAt_id]
  | .choice branches rest, ⟨_, h⟩ => by
    have ih := stops_withWraps gap (g := g) (r := r) (w := w) rest h
    simp only [withWraps, map, sized, stops, stops_behind, List.map_cons, ih, stops.plain, chain,
      head_sizedBranches]

end Track

namespace Wrapped

variable {g₀ g : Graph} {t₀ : Track NodeId} {w : NodeId → Option NodeId} {r : Ruler α}

omit [Scalar α] in
theorem track_eq (hbare : g₀.Bare t₀) (h : Wrapped g₀ t₀ g w) :
    g.track = (t₀.withWraps w).map g.spotAt :=
  (h.hasTree hbare).track_eq

/-- Rows end after nodes of the top level that something follows. -/
theorem followed_of_mem (hbare : g₀.Bare t₀) (h : Wrapped g₀ t₀ g w) {id : NodeId}
    (hid : id ∈ g.rowBreaks r) : g₀.Followed t₀ id := by
  unfold Graph.rowBreaks at hid
  cases hwidth : r.settings.pageWidth with
  | none =>
    rw [hwidth] at hid
    exact absurd hid List.not_mem_nil
  | some limit =>
    rw [hwidth] at hid
    obtain ⟨stop, hstop, rfl, hends⟩ := Stop.mem_breaks _ _ hid
    obtain ⟨c, hc, hid, hnext⟩ := Track.mem_stops _ _ hstop
    have hchain : stop.id ∈ t₀.chain := by
      rw [h.track_eq hbare] at hstop
      exact Track.stops_withWraps r.settings.componentGap.width t₀ hbare.wrapFree ▸
        List.mem_map.mpr ⟨stop, hstop, rfl⟩
    have hspot : c.toSpot ∈ (g.track.sized r |>.map Cell.toSpot).chain := by
      rw [Track.chain_map]
      exact List.mem_map.mpr ⟨c, hc, rfl⟩
    rw [Track.spots_sized, h.track_eq hbare, Track.chain_map] at hspot
    obtain ⟨x, -, hxc⟩ := List.mem_map.mp hspot
    obtain rfl : x = stop.id := (congrArg Spot.id hxc).trans hid
    obtain ⟨node, hn⟩ := hbare.node_of_mem (Track.mem_toList_of_mem_chain t₀ hchain)
    have hnode : node.before (w stop.id) = c.node :=
      (Graph.spotAt_node (h.arena_eq hn)).symm.trans (congrArg Spot.node hxc)
    cases hw : w stop.id with
    | some v => exact h.owner _ v hw
    | none =>
      rw [hw] at hnode
      have hsame : node = c.node := hnode
      exact ⟨hchain, node, hn, hsame ▸ hnext hends⟩

omit [Scalar α] in
theorem spaced (hbare : g₀.Bare t₀) (h : Wrapped g₀ t₀ g w) : g.track.Spaced := by
  rw [h.track_eq hbare]
  refine Track.spaced_withWraps t₀ hbare.wrapFree fun id v hv => ?_
  obtain ⟨-, node, hn, -⟩ := h.owner id v hv
  obtain ⟨wrap, hwrap, hk, -⟩ := h.wrap id v node hv hn
  rw [Graph.spotAt_node hwrap]
  exact hk

omit [Scalar α] in
/-- A wrap behind a node changes where it leads, but not whether it leads anywhere. -/
theorem unlinked_eq (h : Wrapped g₀ t₀ g w) {id : NodeId} {node : Node}
    (hn : g₀.arena id = some node) :
    (node.before (w id)).unlinked = node.unlinked := by
  cases hw : w id with
  | none => rfl
  | some v =>
    obtain ⟨-, node', hn', hnext⟩ := h.owner id v hw
    obtain rfl := Option.some.inj (hn.symm.trans hn')
    obtain ⟨next, hnext⟩ := Option.isSome_iff_exists.mp hnext
    unfold Node.unlinked Node.before
    rw [hnext]
    rfl

/-- **Without the wraps that are not used** the page is that of the compiled graph. -/
theorem breaking_eq (hbare : g₀.Bare t₀) (h : Wrapped g₀ t₀ g w) (hr : r.Local)
    {used marked : NodeId → Bool} (hused : ∀ id ∈ t₀.chain, (w id).any used = marked id) :
    (g.track.sized r).breaking used = g₀.pageWith t₀ r marked := by
  rw [h.track_eq hbare]
  refine Track.breaking_sized hr t₀ hbare.wrapFree (fun id hid => ?_) (fun id hid => ?_) hused
  · obtain ⟨node, hn⟩ := hbare.node_of_mem (Track.mem_toList_of_mem_chain t₀ hid)
    rw [Graph.spotAt_node (h.arena_eq hn), Graph.spotAt_node hn, h.unlinked_eq hn]
  · have hmem : id ∈ t₀.toList := (Track.toList_perm t₀).mem_iff.mpr (List.mem_append_right _ hid)
    obtain ⟨node, hn⟩ := hbare.node_of_mem hmem
    have hat := h.arena_eq hn
    rw [h.eq_none_of_nested hbare hid] at hat
    rw [Graph.spotAt, Graph.spotAt, hn, hat]
    rfl

theorem spaced_sized (hbare : g₀.Bare t₀) (h : Wrapped g₀ t₀ g w) (r : Ruler α) :
    ((g.track.sized r).map Cell.toSpot).Spaced := by
  rw [Track.spots_sized]
  exact h.spaced hbare

/-- **Before the rows are set** the page is that of the compiled graph without any breaks. -/
theorem tidy_sized (hbare : g₀.Bare t₀) (h : Wrapped g₀ t₀ g w) (hr : r.Local)
    (hzero : lt (0.0 : α) 0.0 = false) :
    (g.track.sized r).tidy = g₀.pageWith t₀ r fun _ => false := by
  have hnone : ∀ id ∈ t₀.chain, (w id).any (fun _ => false) = false := by
    intro id _
    cases w id <;> rfl
  rw [Track.tidy_eq_breaking _ (Track.idle_sized r hzero _), h.breaking_eq hbare hr hnone]

/-- The stops of a page are those of the compiled graph without any breaks. -/
theorem stops_eq (hbare : g₀.Bare t₀) (h : Wrapped g₀ t₀ g w) (hr : r.Local)
    (hzero : lt (0.0 : α) 0.0 = false) (gap : α) :
    (g.track.sized r).stops gap = (g₀.pageWith t₀ r fun _ => false).stops gap := by
  rw [← Track.stops_tidy gap _ (h.spaced_sized hbare r), h.tidy_sized hbare hr hzero]

/-- **Rows end after the same nodes** as in the compiled graph. -/
theorem rowBreaks_eq (hbare : g₀.Bare t₀) (h : Wrapped g₀ t₀ g w) (hr : r.Local)
    (hzero : lt (0.0 : α) 0.0 = false) : g.rowBreaks r = g₀.rowBreaks r := by
  have hstops := h.stops_eq hbare hr hzero r.settings.componentGap.width
  have hstops₀ := (Wrapped.refl g₀ t₀).stops_eq hbare hr hzero r.settings.componentGap.width
  rw [Graph.rowBreaks, Graph.rowBreaks, hstops, hstops₀]

/-- **The wraps that a layout uses** stand behind those nodes. -/
theorem breakRows (hbare : g₀.Bare t₀) (h : Wrapped g₀ t₀ g w) (hr : r.Local)
    (hzero : lt (0.0 : α) 0.0 = false) : ∃ w', Wrapped g₀ t₀ (g.breakRows r).1 w' ∧
      (g₀.rowBreaks r).map w' = (g.breakRows r).2.map some := by
  rw [Graph.breakRows_eq, h.rowBreaks_eq hbare hr hzero]
  obtain ⟨w', h', hused, -⟩ := h.breakAfterAll hbare _ fun id (hid : id ∈ g₀.rowBreaks r) =>
    (refl g₀ t₀).followed_of_mem hbare hid
  exact ⟨w', h', hused⟩

/-- **Breaking the rows again** finds all the wraps there. -/
theorem breakRows_again (hbare : g₀.Bare t₀) (h : Wrapped g₀ t₀ g w) (hr : r.Local)
    (hzero : lt (0.0 : α) 0.0 = false) : (g.breakRows r).1.breakRows r = g.breakRows r := by
  obtain ⟨w', h', hused⟩ := h.breakRows hbare hr hzero
  rw [Graph.breakRows_eq (g.breakRows r).1, h'.rowBreaks_eq hbare hr hzero,
    h'.breakAfterAll_again hused]

/-- Breaking the rows puts wraps only where they may be. -/
theorem exists_breakRows (hbare : g₀.Bare t₀) (h : Wrapped g₀ t₀ g w) (r : Ruler α) :
    ∃ w', Wrapped g₀ t₀ (g.breakRows r).1 w' := by
  rw [Graph.breakRows_eq]
  obtain ⟨w', h', -⟩ := h.breakAfterAll hbare _ fun id (hid : id ∈ g.rowBreaks r) =>
    h.followed_of_mem hbare hid
  exact ⟨w', h'⟩

/-- **A layout keeps the compiled graph,** whatever comes of it. -/
theorem afterLayouts (hbare : g₀.Bare t₀) : ∀ (rulers : List (Ruler α)) {g : Graph}
    {w : NodeId → Option NodeId}, Wrapped g₀ t₀ g w →
    ∃ w', Wrapped g₀ t₀ (g.afterLayouts rulers) w'
  | [], _, w, h => ⟨w, h⟩
  | r :: rulers, g, _, h => by
    obtain ⟨w₁, h₁⟩ := h.exists_breakRows hbare r
    rw [← Graph.layout_snd] at h₁
    exact afterLayouts hbare rulers h₁

/-- Just the wraps that are used stand behind nodes that rows end after. -/
theorem any_used (h : Wrapped g₀ t₀ g w) {ids used : List NodeId}
    (hused : ids.map w = used.map some) (id : NodeId) : (w id).any used.contains = ids.contains id := by
  rw [Bool.eq_iff_iff, Option.any_eq_true, List.contains_iff_mem]
  constructor
  · rintro ⟨v, hv, hmem⟩
    have hsome : some v ∈ ids.map w :=
      hused ▸ List.mem_map.mpr ⟨v, List.contains_iff_mem.mp hmem, rfl⟩
    obtain ⟨x, hx, hxv⟩ := List.mem_map.mp hsome
    exact h.inj x id v hxv hv ▸ hx
  · intro hid
    have hsome : w id ∈ used.map some := hused ▸ List.mem_map.mpr ⟨id, hid, rfl⟩
    obtain ⟨v, hv, hwv⟩ := List.mem_map.mp hsome
    exact ⟨v, hwv.symm, List.contains_iff_mem.mpr hv⟩

/-! ## 3. What a layout leaves behind -/

/-- **The page of a layout** is that of the compiled graph, but for wraps that break nothing, and so
are its rows. -/
theorem arranged_tidy (hbare : g₀.Bare t₀) (h : Wrapped g₀ t₀ g w) (hr : r.Local)
    (hzero : lt (0.0 : α) 0.0 = false) :
    (g.arranged r).1.tidy = (g₀.rowPage t₀ r).placed r.settings.componentGap r.settings.margin.top
        ((g₀.rowPage t₀ r).measure r.settings.componentGap.width) ∧
      (g.arranged r).2 = (g₀.rowPage t₀ r).rows r.settings.componentGap.width := by
  obtain ⟨w', h', hused⟩ := h.breakRows hbare hr hzero
  let page := ((g.breakRows r).1.track.sized r).frozen (g.breakRows r).2.contains
  have hspaced : (page.map Cell.toSpot).Spaced := by
    rw [Track.spots_frozen]
    exact h'.spaced_sized hbare r
  have htidy : page.tidy = g₀.rowPage t₀ r := by
    rw [Track.frozen_tidy _ (Track.idle_sized r hzero _),
      h'.breaking_eq hbare hr fun id _ => h'.any_used hused id]
    rfl
  have hmeasure := Track.measure_tidy r.settings.componentGap.width hspaced
  have hrows := Track.rows_tidy r.settings.componentGap.width hspaced
  rw [htidy] at hmeasure hrows
  rw [Graph.arranged, Graph.arrange_eq, hmeasure, hrows, ← htidy,
    ← Track.placed_tidy _ page _ _ hspaced]
  exact ⟨rfl, rfl⟩

/-- The page of a layout that is tidy has the spots of its graph. -/
theorem arranged_spaced (hbare : g₀.Bare t₀) (h : Wrapped g₀ t₀ g w) (hr : r.Local)
    (hzero : lt (0.0 : α) 0.0 = false) : ((g.arranged r).1.map Cell.toSpot).Spaced := by
  obtain ⟨w', h', -⟩ := h.breakRows hbare hr hzero
  rw [Graph.spots_arranged]
  exact h'.spaced hbare

/-- The cell of a compiled node. -/
theorem exists_cell (hbare : g₀.Bare t₀) (h : Wrapped g₀ t₀ g w) {page : Track (Cell α)}
    (hpage : page.map Cell.toSpot = g.track) {id : NodeId} {node : Node}
    (hn : g₀.arena id = some node) :
    ∃ c, (g.cells page)[id]? = some c ∧ c ∈ page.toList ∧ c.id = id ∧ c.node = node.before (w id) :=
  Graph.exists_cell (h.hasTree hbare) hpage (h.arena_eq hn)

/-- Rows of the page end after the nodes that a wrap with a height stands behind. -/
theorem mem_rowEnds_iff (hbare : g₀.Bare t₀) (h : Wrapped g₀ t₀ g w) {page : Track (Cell α)}
    (hpage : page.map Cell.toSpot = g.track) {id : NodeId} : id ∈ page.rowEnds ↔
      ∃ v after, w id = some v ∧ (g.cells page)[v]? = some after ∧ after.box.hasHeight = true := by
  let f : NodeId → Cell α := fun id => ((g.cells page)[id]?).getD Track.idleWrap
  have htree := h.hasTree hbare
  have hf : ∀ c ∈ page.toList, f c.id = c := by
    intro c hc
    show ((g.cells page)[c.id]?).getD Track.idleWrap = c
    rw [Graph.cells_getElem? htree hpage hc]
    rfl
  have hfid : ∀ id ∈ t₀.chain, (f id).id = id := by
    intro id hid
    obtain ⟨node, hn⟩ := hbare.node_of_mem (Track.mem_toList_of_mem_chain t₀ hid)
    obtain ⟨c, -, hc, rfl, -⟩ := h.exists_cell hbare hpage hn
    rw [hf c hc]
  have hends : page.rowEnds = t₀.chain.filter fun id => (w id).any fun v => (f v).box.hasHeight :=
    (congrArg Track.rowEnds (Graph.page_eq_map htree hpage hf)).trans
      (Track.rowEnds_withWraps t₀ hbare.wrapFree hfid)
  rw [hends, List.mem_filter, Option.any_eq_true]
  constructor
  · rintro ⟨-, v, hv, hheight⟩
    obtain ⟨-, node, hn, -⟩ := h.owner id v hv
    obtain ⟨wrap, hwrap, -⟩ := h.wrap id v node hv hn
    obtain ⟨after, hafter, hmem, rfl, -⟩ := Graph.exists_cell htree hpage hwrap
    rw [hf after hmem] at hheight
    exact ⟨after.id, after, hv, hafter, hheight⟩
  · rintro ⟨v, after, hv, hafter, hheight⟩
    refine ⟨(h.owner id v hv).1, v, hv, ?_⟩
    show (((g.cells page)[v]?).getD Track.idleWrap).box.hasHeight = true
    rw [hafter]
    exact hheight

/-- **The ends of rows** that show in the boxes of a graph are those of its page. -/
theorem endsRow_iff (hbare : g₀.Bare t₀) (h : Wrapped g₀ t₀ g w) {page : Track (Cell α)}
    (hpage : page.map Cell.toSpot = g.track) {id : NodeId} {node : Node}
    (hn : g₀.arena id = some node) :
    Cell.endsRow (g.cells page) id = true ↔ id ∈ page.rowEnds := by
  obtain ⟨c, hat, -, -, hnode⟩ := h.exists_cell hbare hpage hn
  rw [h.mem_rowEnds_iff hbare hpage, Cell.endsRow_iff]
  constructor
  · rintro ⟨c', next, after, hc', hnext, hafter, hbreaks⟩
    obtain rfl := Option.some.inj (hat.symm.trans hc')
    rw [hnode] at hnext
    cases hw : w id with
    | none =>
      -- What follows the node is a compiled node and no wrap.
      rw [hw] at hnext
      obtain ⟨y, hy⟩ := hbare.node_of_next hn hnext
      obtain ⟨c', hat', -, -, hnode'⟩ := h.exists_cell hbare hpage hy
      obtain rfl := Option.some.inj (hat'.symm.trans hafter)
      have hkind : c'.node.kind = .wrap := Cell.kind_of_breaks hbreaks
      rw [hnode', Node.kind_before] at hkind
      exact absurd hkind (hbare.kind_ne_wrap hy)
    | some v =>
      rw [hw] at hnext
      obtain rfl : v = next := Option.some.inj hnext
      exact ⟨v, after, rfl, hafter, ((Bool.and_eq_true _ _).mp hbreaks).2⟩
  · rintro ⟨v, after, hv, hafter, hheight⟩
    obtain ⟨wrap, hwrap, hk, -⟩ := h.wrap id v node hv hn
    obtain ⟨after', hafter', -, -, hwrapNode⟩ := Graph.exists_cell (h.hasTree hbare) hpage hwrap
    obtain rfl := Option.some.inj (hafter'.symm.trans hafter)
    have hkind : after'.node.kind = .wrap := hwrapNode ▸ hk
    refine ⟨c, v, after', hat, ?_, hafter, ?_⟩
    · rw [hnode, hv]
      rfl
    · exact (Bool.and_eq_true _ _).mpr ⟨beq_iff_eq.mpr hkind, hheight⟩

/-- The box of a compiled node is the one it has on the page. -/
theorem mem_boxes_iff (hbare : g₀.Bare t₀) (h : Wrapped g₀ t₀ g w) {page : Track (Cell α)}
    (hpage : page.map Cell.toSpot = g.track) {id : NodeId} {node : Node}
    (hn : g₀.arena id = some node) {box : Box α} : (id, box) ∈ page.boxes ↔ ∃ c, (g.cells page)[id]? = some c ∧ c.box = box := by
  rw [Track.boxes, List.mem_filterMap]
  constructor
  · rintro ⟨c, hc, hheld⟩
    unfold Cell.held at hheld
    split at hheld
    · cases hheld
    · cases hheld
      exact ⟨c, Graph.cells_getElem? (h.hasTree hbare) hpage hc, rfl⟩
  · rintro ⟨c, hc, rfl⟩
    obtain ⟨c', hc', hmem, rfl, hnode⟩ := h.exists_cell hbare hpage hn
    obtain rfl := Option.some.inj (hc.symm.trans hc')
    refine ⟨c, hmem, if_neg ?_⟩
    rw [hnode, Node.kind_before]
    exact hbare.kind_ne_wrap hn

end Wrapped

/-! ## 4. Layouts after other layouts -/

/-- **Two graphs are laid out alike** as far as the nodes at the first `size` places go: these have
the same boxes and rows end after the same of them, and two pages that can be drawn have the same
rows, with all their heights, and the same size.  Nothing is said of wraps, nor of what is said when
a box cannot be drawn. -/
structure Graph.LaidOutAlike (size : Nat) (r : Ruler α) (g g' : Graph) : Prop where
  box : ∀ id < size, ∃ c c', (g.laidOut r)[id]? = some c ∧ (g'.laidOut r)[id]? = some c' ∧
    c'.box = c.box
  rowEnd : ∀ id < size, Cell.endsRow (g'.laidOut r) id = Cell.endsRow (g.laidOut r) id
  page : ∀ l l', (g.layout r).1 = .ok l → (g'.layout r).1 = .ok l' →
    l'.rows = l.rows ∧ l'.content = l.content ∧ l'.size = l.size

/-- **The layout of a graph with wraps** is that of the compiled graph. -/
theorem Wrapped.laidOutAlike {g₀ g : Graph} {t₀ : Track NodeId} {w : NodeId → Option NodeId}
    {r : Ruler α} (hbare : g₀.Bare t₀) (h : Wrapped g₀ t₀ g w) (hr : r.Local) (hzero : lt (0.0 : α) 0.0 = false) :
    g₀.LaidOutAlike g₀.nodes.size r g := by
  -- The compiled graph is one with wraps too, with none: both pages have the same tidy form.
  have hfresh := Wrapped.refl g₀ t₀
  obtain ⟨htidy, hrows⟩ := h.arranged_tidy hbare hr hzero
  obtain ⟨htidy₀, hrows₀⟩ := hfresh.arranged_tidy hbare hr hzero
  have hspaced := h.arranged_spaced hbare hr hzero
  have hspaced₀ := hfresh.arranged_spaced hbare hr hzero
  obtain ⟨w', h', -⟩ := h.breakRows hbare hr hzero
  obtain ⟨w₀, h₀, -⟩ := hfresh.breakRows hbare hr hzero
  have hpage (g : Graph) := g.spots_arranged r
  have hnode : ∀ id : Nat, id < g₀.nodes.size → ∃ node, g₀.arena id = some node := fun id hid =>
    hbare.node_of_mem ((hbare.mem_iff id).mpr hid)
  constructor
  case box =>
    intro id hid
    obtain ⟨node, hn⟩ := hnode id hid
    have hboxes : (g.arranged r).1.boxes = (g₀.arranged r).1.boxes := by
      rw [← Track.boxes_tidy _ hspaced, ← Track.boxes_tidy _ hspaced₀, htidy, htidy₀]
    obtain ⟨c, hc, -⟩ := h₀.exists_cell hbare (hpage g₀) hn
    have hmem := (h₀.mem_boxes_iff hbare (hpage g₀) hn).mpr ⟨c, hc, rfl⟩
    rw [← hboxes] at hmem
    obtain ⟨c', hc', hbox⟩ := (h'.mem_boxes_iff hbare (hpage g) hn).mp hmem
    exact ⟨c, c', hc, hc', hbox⟩
  case rowEnd =>
    intro id hid
    obtain ⟨node, hn⟩ := hnode id hid
    have hends : (g.arranged r).1.rowEnds = (g₀.arranged r).1.rowEnds := by
      rw [← Track.rowEnds_tidy _ hspaced, ← Track.rowEnds_tidy _ hspaced₀, htidy, htidy₀]
    rw [Bool.eq_iff_iff]
    exact (h'.endsRow_iff hbare (hpage g) hn).trans (hends ▸ (h₀.endsRow_iff hbare (hpage g₀) hn).symm)
  case page =>
    intro l l' hl hl'
    obtain ⟨-, hr₀, hs₀⟩ := Graph.layout_ok hl
    obtain ⟨-, hr', hs'⟩ := Graph.layout_ok hl'
    have hsize : (l'.content, l'.size) = (l.content, l.size) := by
      rw [hs', hs₀, hrows, hrows₀]
    exact ⟨by rw [hr', hr₀, hrows, hrows₀], congrArg Prod.fst hsize, congrArg Prod.snd hsize⟩

/-- **A layout that is done again** finds the graph as it left it, with the same wraps to use, and
has the same result. -/
theorem Wrapped.layout_again {g₀ g : Graph} {t₀ : Track NodeId} {w : NodeId → Option NodeId}
    {r : Ruler α} (hbare : g₀.Bare t₀) (h : Wrapped g₀ t₀ g w) (hr : r.Local) (hzero : lt (0.0 : α) 0.0 = false) :
    (g.layout r).2.layout r = g.layout r ∧ (g.layout r).2.breakRows r = g.breakRows r ∧
      (g.layout r).2.laidOut r = g.laidOut r := by
  have hagain := h.breakRows_again hbare hr hzero
  rw [Graph.layout_snd]
  refine ⟨?_, hagain, ?_⟩
  · rw [Graph.layout, hagain]
    rfl
  · rw [Graph.laidOut, Graph.arranged, hagain]
    rfl

/-- What is compiled has a tree without wraps. -/
theorem Build.bare_of_compile {registry : Registry} {collapsing : Bool} {p : Production} {g : Graph}
    (h : (compile registry collapsing p).1 = .ok g) : ∃ t, g.Bare t := by
  obtain ⟨t, htree, hshown⟩ := hasTree_of_compile h
  have hfree := Plan.track_wrapFree (Plan.ofExpr collapsing p.expr)
  rw [← hshown] at hfree
  exact ⟨t, htree, Track.wrapFree_of_map t hfree⟩

/-- **A layout does not depend on the layouts before it.**  On a compiled graph and on the same
graph after any layouts, whatever their settings and whatever came of them:

* the compiled nodes have the same boxes, and rows end after the same of them;
* pages that can be drawn have the same rows and the same size;
* the layout done twice changes nothing the second time: the result is the same, and so are the
  graph, the wraps in use and all boxes.

Labels may be shaped in any way, and the layouts before may even have measured them differently.

Nothing is assumed about the settings, so a layout before may have stopped at a box that cannot be
drawn, with its wraps in the graph.  Wraps are what a layout can leave behind; the compiled nodes
come first in the graph and keep their numbers, which is why they are named by them. -/
theorem layout_afterLayouts [Shaping Float32] {registry : Build.Registry} {collapsing : Bool}
    {p : Production} {g : Graph} (h : (Build.compile registry collapsing p).1 = .ok g)
    (rulers : List (Ruler Float32)) (settings : LayoutSettings Float32) (symbols : SymbolTable) :
    let r := Ruler.ofSymbols settings symbols
    let g' := g.afterLayouts rulers
    g.LaidOutAlike g.nodes.size r g' ∧ (g'.layout r).2.layout r = g'.layout r ∧
      (g'.layout r).2.breakRows r = g'.breakRows r ∧ (g'.layout r).2.laidOut r = g'.laidOut r := by
  intro r g'
  have hzero : lt (0.0 : Float32) 0.0 = false := by decide
  obtain ⟨t, hbare⟩ := Build.bare_of_compile h
  obtain ⟨w, hwrapped⟩ := (Wrapped.refl g t).afterLayouts hbare rulers
  have hr : r.Local := Ruler.local_ofSymbols settings symbols
  exact ⟨hwrapped.laidOutAlike hbare hr hzero, hwrapped.layout_again hbare hr hzero⟩

/-- The production `p = "a" "b"`. -/
def twoWords : Production where
  name := "p"
  expr := .sequence [.literal ⟨"a", {}⟩, .literal ⟨"b", {}⟩]

/-- Its graph. -/
def twoWordsGraph : Graph where
  nodes := #[{ serial := 0, kind := .terminal, symbol := some 0, next := some 1 },
    { serial := 1, kind := .terminal, symbol := some 1 }]
  entry := 0

/-- The labels of its words, on a page that has a width, or none. -/
def twoWordsRuler (pageWidth : Option Float32) : Ruler Float32 :=
  .ofSymbols { LayoutSettings.default with pageWidth, textMetrics := .fixed }
    ⟨[(.terminal, "a"), (.terminal, "b")]⟩

/-- On a narrow page the first word has to make a row of its own. -/
theorem rowBreaks_twoWords : twoWordsGraph.rowBreaks (twoWordsRuler (some 40.0)) = [0] := by
  let stops : List (Stop Float32) :=
    (twoWordsGraph.track.sized (twoWordsRuler (some 40.0))).stops 32.0
  have hfirst : Stop.rowEnd? 40.0 stops = some 0 := by decide +kernel
  have hsecond : Stop.rowEnd? 40.0 stops.tail = none := by decide +kernel
  obtain ⟨first, second, hstops, hid⟩ : ∃ a b : Stop Float32, stops = [a, b] ∧ a.id = 0 :=
    ⟨_, _, rfl, rfl⟩
  rw [hstops] at hfirst hsecond
  change Stop.breaks 40.0 stops = [0]
  rw [hstops, Stop.breaks, hfirst]
  change [first.id] ++ Stop.breaks 40.0 [second] = [0]
  rw [Stop.breaks, show Stop.rowEnd? 40.0 [second] = none from hsecond, hid]
  rfl

/-- A layout on a narrow page leaves a wrap behind, which the next one, on a page without limits,
does not see. -/
theorem layout_afterLayouts_twoWords : (Build.compile {} true twoWords).1 = .ok twoWordsGraph ∧
    (twoWordsGraph.afterLayouts [twoWordsRuler (some 40.0)]).nodes.size = 3 ∧
    twoWordsGraph.LaidOutAlike 2 (twoWordsRuler none)
      (twoWordsGraph.afterLayouts [twoWordsRuler (some 40.0)]) := by
  have hg : (Build.compile {} true twoWords).1 = .ok twoWordsGraph := by cbv
  have hwrap : (twoWordsGraph.afterLayouts [twoWordsRuler (some 40.0)]).nodes.size = 3 := by
    rw [Graph.afterLayouts, List.foldl_cons, List.foldl_nil, Graph.layout_snd, Graph.breakRows_eq,
      rowBreaks_twoWords]
    rfl
  exact ⟨hg, hwrap, (layout_afterLayouts hg [twoWordsRuler (some 40.0)] _ _).1⟩

end Railroad
