/-
# Frames around nodes

A chart may show the borders of its nodes.  Then every node that a walk comes by is drawn with a
frame, which is as large as the node and has its top, and nothing else about the drawing changes
(`Canvas.bordered_page`).

These are all nodes of the graph but the further branches of alternations, which are drawn with the
first one (`Graph.HasTree.perm_furtherBranches`).

Both drawings are made by the same walk, and they are compared mark by mark while it goes on
(`Bordered`).  So the frames are not only as many as the nodes and of the right sizes: they stand
where the walk came by their nodes, each right before the marks of its own.
-/
import Railroad.Proofs.Drawing.ReadingOrder
import Railroad.Proofs.Grammar.Independence

namespace Railroad

open Scalar

/-! ## 1. Further branches -/

/-- **The further branches of the alternations of a graph:** where the branches above them lead
down to. -/
def Graph.furtherBranches (g : Graph) : List NodeId :=
  g.nodes.toList.filterMap fun node => if node.kind = .alternative then node.down else none

/-- The branch below, if the node at a place is a branch and there is one. -/
def Arena.below? (arena : Arena) (id : NodeId) : Option NodeId :=
  (arena id).bind fun node => if node.kind = .alternative then node.down else none

theorem Arena.below?_eq {arena : Arena} {id : NodeId} {node : Node} (hn : arena id = some node) :
    arena.below? id = if node.kind = .alternative then node.down else none := by
  rw [below?, hn, Option.bind_some]

/-- Each branch of an alternation but the last leads down to the next one. -/
theorem TracedBranches.filterMap_below? {arena : Arena} : ∀ {bs : Branches NodeId}
    {start : Option NodeId}, TracedBranches arena start bs →
    bs.marks.filterMap arena.below? = bs.marks.tail
  | .last id body, _, ⟨_, node, hn, hk, hd, _⟩ => by
    have hbelow : arena.below? id = none := by rw [Arena.below?_eq hn, if_pos hk, hd]
    rw [Branches.marks, List.filterMap_cons_none hbelow]
    rfl
  | .more id body others, _, ⟨_, node, hn, hk, _, ho⟩ => by
    have hbelow : arena.below? id = some others.head := by
      rw [Arena.below?_eq hn, if_pos hk, ho.head.1]
    rw [Branches.marks, List.filterMap_cons_some hbelow, ho.filterMap_below?, List.tail_cons,
      ← Track.marks_eq_head_cons]

/-- A node that is no branch leads down nowhere. -/
theorem filterMap_below?_single {arena : Arena} {id : NodeId} {node : Node}
    (hn : arena id = some node) (hk : node.kind ≠ .alternative) :
    [id].filterMap arena.below? = [] := by
  rw [List.filterMap_cons_none (by rw [Arena.below?_eq hn, if_neg hk]), List.filterMap_nil]

mutual

/-- **The nodes of a walk lead down to the further branches** and to nothing else. -/
theorem Traced.filterMap_below? {arena : Arena} : ∀ {t : Track NodeId} {start : Option NodeId},
    Traced arena start t → ∀ item ∈ t.items, item.marks.filterMap arena.below? = item.marks.tail
  | .stop, _, _, item, hitem => absurd hitem List.not_mem_nil
  | .symbol id rest, _, ⟨_, node, hn, hk, hr⟩, item, hitem => by
    rcases List.mem_cons.mp hitem with rfl | hitem
    · refine filterMap_below?_single hn fun halternative => ?_
      rw [halternative] at hk
      cases hk
    · exact hr.filterMap_below? item hitem
  | .epsilon id rest, _, ⟨_, node, hn, hk, hr⟩, item, hitem
  | .wrap id rest, _, ⟨_, node, hn, hk, hr⟩, item, hitem => by
    rcases List.mem_cons.mp hitem with rfl | hitem
    · exact filterMap_below?_single hn (by rw [hk]; decide)
    · exact hr.filterMap_below? item hitem
  | .optional id body rest, _, ⟨_, node, hn, hk, hb, hr⟩, item, hitem
  | .iteration id body rest, _, ⟨_, node, hn, hk, hb, hr⟩, item, hitem => by
    simp only [Track.items, List.mem_cons, List.mem_append] at hitem
    rcases hitem with rfl | hitem | hitem
    · exact filterMap_below?_single hn (by rw [hk]; decide)
    · exact hb.filterMap_below? item hitem
    · exact hr.filterMap_below? item hitem
  | .rerun id body between rest, _, ⟨_, node, hn, hk, hb, hw, hr⟩, item, hitem => by
    simp only [Track.items, List.mem_cons, List.mem_append] at hitem
    rcases hitem with rfl | hitem | hitem | hitem
    · exact filterMap_below?_single hn (by rw [hk]; decide)
    · exact hb.filterMap_below? item hitem
    · exact hw.filterMap_below? item hitem
    · exact hr.filterMap_below? item hitem
  | .choice branches rest, _, ⟨_, _, hb, hr⟩, item, hitem => by
    simp only [Track.items, List.mem_cons, List.mem_append] at hitem
    rcases hitem with rfl | hitem | hitem
    · exact TracedBranches.filterMap_below? hb
    · exact hb.filterMap_below?_items item hitem
    · exact hr.filterMap_below? item hitem

theorem TracedBranches.filterMap_below?_items {arena : Arena} : ∀ {bs : Branches NodeId}
    {start : Option NodeId}, TracedBranches arena start bs →
    ∀ item ∈ Track.branchItems bs, item.marks.filterMap arena.below? = item.marks.tail
  | .last _ _, _, ⟨_, _, _, _, _, hb⟩ => hb.filterMap_below?
  | .more _ _ _, _, ⟨_, _, _, _, hb, ho⟩ =>
    List.forall_mem_append.mpr ⟨hb.filterMap_below?, ho.filterMap_below?_items⟩

end

namespace Graph

variable {g : Graph} {t : Track NodeId}

/-- In the order of the array, the nodes lead down to the further branches. -/
theorem furtherBranches_eq (g : Graph) :
    g.furtherBranches = (List.range g.nodes.size).filterMap g.arena.below? := by
  have hnodes : g.nodes.toList.map some = (List.range g.nodes.size).map g.arena := by
    refine List.ext_getElem (by simp) fun id hid hid' => ?_
    simp [arena]
  have hfurther : g.furtherBranches = (g.nodes.toList.map some).filterMap (·.bind fun node =>
      if node.kind = .alternative then node.down else none) := by
    rw [furtherBranches, List.filterMap_map]
    rfl
  rw [hfurther, hnodes, List.filterMap_map]
  rfl

/-- **Each node of a graph is a node of a level or a further branch,** and none is both. -/
theorem HasTree.perm_furtherBranches (h : g.HasTree Exit.Similar t) :
    (List.range g.nodes.size).Perm (t.items.map Item.mark ++ g.furtherBranches) := by
  have hmarks : t.toList.Perm (t.items.flatMap fun item => item.mark :: item.marks.tail) := by
    refine (Track.toList_perm_marks t).trans (.of_eq ?_)
    exact List.flatMap_congr fun item _ => item.marks_eq_cons
  have hfurther : g.furtherBranches.Perm (t.items.flatMap (·.marks.tail)) := by
    rw [furtherBranches_eq]
    refine (h.perm_range.symm.filterMap _).trans ?_
    refine ((Track.toList_perm_marks t).filterMap _).trans (.of_eq ?_)
    rw [List.filterMap_flatMap]
    exact List.flatMap_congr fun item hitem => h.traced.filterMap_below? item hitem
  refine (h.perm_range.symm.trans hmarks).trans ?_
  refine (List.map_append_flatMap_perm t.items Item.mark (·.marks.tail)).symm.trans ?_
  exact hfurther.symm.append_left _

/-- **The nodes of the levels are those that are no further branches.** -/
theorem HasTree.perm_mark (h : g.HasTree Exit.Similar t) : (t.items.map Item.mark).Perm
    ((List.range g.nodes.size).filter fun id => !g.furtherBranches.contains id) := by
  have hnodup : (t.items.map Item.mark ++ g.furtherBranches).Nodup :=
    h.perm_furtherBranches.nodup_iff.mp List.nodup_range
  have hmarks : (t.items.map Item.mark).filter (fun id => !g.furtherBranches.contains id)
      = t.items.map Item.mark := by
    refine List.filter_eq_self.mpr fun id hid => ?_
    have hnot : id ∉ g.furtherBranches := fun hfurther =>
      (List.nodup_append.mp hnodup).2.2 id hid id hfurther rfl
    simpa using hnot
  have hfurther : g.furtherBranches.filter (fun id => !g.furtherBranches.contains id) = [] :=
    List.filter_eq_nil_iff.mpr fun id hid => by simpa using hid
  have hperm := h.perm_furtherBranches.filter fun id => !g.furtherBranches.contains id
  rw [List.filter_append, hmarks, hfurther, List.append_nil] at hperm
  exact hperm.symm

variable {α : Type}

/-- The nodes of a page, each once with all its branches. -/
theorem ids_items {page : Track (Cell α)} (h : g.HasTree Exit.Similar t)
    (hpage : page.map Cell.toSpot = g.track) :
    page.items.map (·.mark.id) = t.items.map Item.mark := by
  have hitems := congrArg Track.items hpage
  rw [h.track_eq, Track.items_map, Track.items_map] at hitems
  have hids := congrArg (List.map (·.mark.id)) hitems
  simpa [Function.comp_def, Item.mark_map] using hids

end Graph

/-! ## 2. Drawings with frames -/

variable {α : Type}

/-- It is the frame of a node. -/
def Primitive.isFrame : Primitive α → Bool
  | .frame .. => true
  | _ => false

/-- The top and the size of a frame. -/
def Primitive.frame? : Primitive α → Option (α × Size α)
  | .frame origin size _ => some (origin.y, size)
  | _ => none

/-- **A drawing beside the same drawing without frames:** in the first each of some cells has a
frame with its top and its size.  Both drawings are made at once by the rules, so each half is read
off by induction. -/
inductive Bordered : List (Cell α) → List (Primitive α) → List (Primitive α) → Prop where
  | nil : Bordered [] [] []
  | both {cells : List (Cell α)} {marks plain : List (Primitive α)} {mark : Primitive α}
    (h : mark.isFrame = false) (rest : Bordered cells marks plain) :
    Bordered cells (mark :: marks) (mark :: plain)
  | framed {cells : List (Cell α)} {marks plain : List (Primitive α)} (c : Cell α) (left : α)
    (stroke : Stroke α) (rest : Bordered cells marks plain) :
    Bordered (c :: cells) (.frame ⟨left, c.box.top⟩ c.extent stroke :: marks) plain

namespace Bordered

variable {cells cells' : List (Cell α)} {marks marks' plain plain' : List (Primitive α)}

theorem append (h : Bordered cells marks plain) (h' : Bordered cells' marks' plain') :
    Bordered (cells ++ cells') (marks ++ marks') (plain ++ plain') := by
  induction h with
  | nil => exact h'
  | both hmark _ ih => exact .both hmark ih
  | framed c left stroke _ ih => exact .framed c left stroke ih

/-- **Without its frames the one drawing is the other.** -/
theorem filter_eq (h : Bordered cells marks plain) : marks.filter (!·.isFrame) = plain := by
  induction h with
  | nil => rfl
  | both hmark _ ih => rw [List.filter_cons, if_pos (by rw [hmark]; rfl), ih]
  | framed c left stroke _ ih => rw [List.filter_cons, if_neg (by simp [Primitive.isFrame]), ih]

/-- **The frames are those of the cells.** -/
theorem filterMap_eq (h : Bordered cells marks plain) :
    marks.filterMap Primitive.frame? = cells.map fun c => (c.box.top, c.extent) := by
  induction h with
  | nil => rfl
  | @both _ _ _ mark hmark _ ih =>
    have hnone : mark.frame? = none := by
      cases mark with
      | frame => cases hmark
      | _ => rfl
    rw [List.filterMap_cons_none hnone, ih]
  | framed c left stroke _ ih =>
    rw [List.filterMap_cons, ih]
    rfl

end Bordered

/-- The canvas with borders shown or not. -/
def Canvas.withBorders (cv : Canvas α) (shown : Bool) : Canvas α :=
  { cv with chart := { cv.chart with showBorders := shown } }

variable [Scalar α]

namespace Canvas

variable {cv : Canvas α}

omit [Scalar α] in
/-- Track is the same on both sides. -/
theorem bordered_track {b : Brush α} : ∀ {marks : List (Primitive α)},
    (∀ mark ∈ marks, mark.IsTrack b) → Bordered [] marks marks
  | [], _ => .nil
  | mark :: _, h => by
    obtain ⟨hmark, hmarks⟩ := List.forall_mem_cons.mp h
    refine .both ?_ (bordered_track hmarks)
    cases mark <;> first | rfl | exact hmark.elim

omit [Scalar α] in
theorem bordered_track_append {b : Brush α} {cells : List (Cell α)}
    {marks marks' plain' : List (Primitive α)} (h : ∀ mark ∈ marks, mark.IsTrack b)
    (h' : Bordered cells marks' plain') : Bordered cells (marks ++ marks') (marks ++ plain') :=
  (bordered_track h).append h'

theorem bordered_symbol (b : Brush α) (d : Direction) (left : α) (c : Cell α) :
    Bordered [] (cv.symbol b d left c) (cv.symbol b d left c) :=
  .both rfl (.both rfl (.both rfl .nil))

/-- **A node gets a frame,** and nothing else changes. -/
theorem bordered_node {b : Brush α} {d : Direction} {c : Cell α} {left cursor : α}
    {connected last : Bool} {cells cells' : List (Cell α)} {content plain : List (Primitive α)}
    {rest rest' : α → Drawn α} (hcontent : Bordered cells content plain)
    (hrest : ∀ next, Bordered cells' (rest next).marks (rest' next).marks) :
    Bordered (c :: (cells ++ cells'))
      ((cv.withBorders true).node b d c left cursor content connected last rest).marks
      ((cv.withBorders false).node b d c left cursor plain connected last rest').marks := by
  have hframe : (cv.withBorders true).frame c left
      = [.frame ⟨left, c.box.top⟩ c.extent ⟨cv.frameColor c.node.kind, 0.5, .dashed⟩] := rfl
  have hnone : (cv.withBorders false).frame c left = [] := rfl
  have hinner := hcontent.append (bordered_track (isTrack_connector (b.override c.node.style) cursor
    c.box.line (cv.past d cursor connected) c.box.line connected))
  rw [List.append_nil] at hinner
  rw [marks_node, marks_node, hframe, hnone]
  exact .framed c left _ (hinner.append (bordered_track_append (isTrack_closing _ _ _ _) (hrest _)))

/-- However a level is drawn, with borders each of its nodes has a frame, and nothing else
changes. -/
def Frames (cv : Canvas α) (t : Track (Cell α)) : Prop :=
  ∀ (b : Brush α) (d : Direction) (cursor : α), Bordered (t.items.map Item.mark)
    ((cv.withBorders true).track b d cursor t).marks
    ((cv.withBorders false).track b d cursor t).marks

theorem bordered_branchMarks {d : Direction} {x width : α} : ∀ {bs : Branches (Cell α)}
    {b : Brush α} {first : Bool}, (∀ level ∈ bs.levels, cv.Frames level.2) →
    Bordered ((Track.branchItems bs).map Item.mark)
      ((cv.withBorders true).branchMarks b d x width first bs)
      ((cv.withBorders false).branchMarks b d x width first bs)
  | .last c body, b, first, inside => by
    rw [branchMarks, branchMarks]
    exact bordered_track_append (isTrack_branchRails _ _ _ _ _ _ _)
      (List.forall_mem_singleton.mp inside _ _ _)
  | .more c body others, b, first, inside => by
    obtain ⟨hbody, hothers⟩ := List.forall_mem_cons.mp inside
    rw [branchMarks, branchMarks, Track.branchItems, List.map_append]
    exact (bordered_track_append (isTrack_branchRails _ _ _ _ _ _ _) (hbody _ _ _)).append
      (bordered_branchMarks hothers)

/-- Inside a node the levels have frames, and nothing else has. -/
theorem bordered_itemMarks {item : Item (Cell α)} {b : Brush α} {d : Direction} {left : α}
    (inside : ∀ level ∈ item.levels, cv.Frames level) :
    Bordered ((item.levels.flatMap Track.items).map Item.mark)
      ((cv.withBorders true).itemMarks b d left item)
      ((cv.withBorders false).itemMarks b d left item) := by
  cases item with
  | symbol c => exact bordered_symbol _ _ _ _
  | epsilon c => exact bordered_track (isTrack_epsilon _ _ _)
  | wrap c => exact .nil
  | optional c body =>
    rw [Item.levels, List.flatMap_singleton]
    exact bordered_track_append (isTrack_bypass _ _ _)
      (inside body (List.mem_singleton_self _) _ _ _)
  | iteration c body =>
    rw [Item.levels, List.flatMap_singleton]
    exact bordered_track_append (isTrack_iterationRails _ _ _ _)
      (inside body (List.mem_singleton_self _) _ _ _)
  | rerun c body between =>
    obtain ⟨hbody, hback⟩ := List.forall_mem_cons.mp inside
    have hbetween := List.forall_mem_singleton.mp hback
    rw [Item.levels, List.flatMap_cons, List.flatMap_singleton, List.map_append, itemMarks,
      itemMarks, List.append_assoc, List.append_assoc]
    exact .both rfl (.both rfl ((hbody _ _ _).append
      (bordered_track_append (isTrack_rerunRails _ _ _ _ _ _ _) (hbetween _ _ _))))
  | choice branches =>
    rw [Item.levels, List.flatMap_map, ← Track.branchItems_eq]
    exact bordered_track_append (isTrack_choiceRails _ _ _)
      (bordered_branchMarks (List.forall_mem_map.mp inside))

/-- The turn of a wrap has no frame, either. -/
theorem bordered_content {item : Item (Cell α)} {b : Brush α} {d : Direction} {cursor : α}
    {rest : Track (Cell α)} (inside : ∀ level ∈ item.levels, cv.Frames level) :
    Bordered ((item.levels.flatMap Track.items).map Item.mark)
      ((cv.withBorders true).content b d cursor rest item)
      ((cv.withBorders false).content b d cursor rest item) := by
  cases item with
  | wrap c => exact bordered_track (isTrack_rowTurn _ _ _ _ _)
  | _ => exact bordered_itemMarks (d := d) inside

/-- **With borders each node of a level has its frame,** and nothing else changes. -/
theorem frames_track (t : Track (Cell α)) : cv.Frames t := by
  induction t using Track.item_induction with
  | stop => exact fun _ _ _ => .nil
  | before item rest inside ih =>
    intro b d cursor
    rw [track_before, track_before, Track.items_before, List.map_cons, List.map_append]
    exact bordered_node (bordered_content inside) (ih b d)

/-- A page gets frames likewise. -/
theorem bordered_page (page : Track (Cell α)) : Bordered (page.items.map Item.mark)
    ((cv.withBorders true).page page) ((cv.withBorders false).page page) :=
  .both rfl (frames_track page _ _ _)

end Canvas

/-! ## 3. Diagrams with frames -/

/-- The settings with borders shown or not. -/
def Settings.withBorders (s : Settings α) (shown : Bool) : Settings α :=
  { s with style := { s.style with showBorders := shown } }

namespace Grammar

omit [Scalar α] in
/-- The borders are the only thing about the look of a chart that the setting changes. -/
theorem chart_withBorders [Color.Notation] (settings : Settings α) (shown : Bool) :
    Grammar.chart (settings.withBorders shown)
      = (Grammar.chart settings).map fun chart => { chart with showBorders := shown } := by
  unfold Grammar.chart StyleSettings.resolve
  show Except.mapError _ (settings.style.lineColor >>= fun _ => settings.style.textColor >>=
    fun _ => settings.style.fillColor >>= fun _ =>
      settings.style.backgroundColor >>= fun _ => _) = _
  cases settings.style.lineColor with
  | error e => rfl
  | ok line =>
    cases settings.style.textColor with
    | error e => rfl
    | ok text =>
      cases settings.style.fillColor with
      | error e => rfl
      | ok fill => cases settings.style.backgroundColor <;> rfl

section Drawing

variable [Shaping α] [Color.Notation]

/-- **Borders do not decide whether there is a drawing:** with and without them the same page is
drawn, or the same is wrong. -/
theorem render_withBorders (g : Grammar) (settings : Settings α) (name : String) :
    (∃ failure, ∀ shown, g.render (settings.withBorders shown) name = .error failure) ∨
    ∃ (chart : ChartStyle α) (graph graph' : Graph) (l : Layout α), g.graph? name = some graph ∧
      graph.layout (.ofSymbols settings.layout g.symbols) = (.ok l, graph') ∧
      ∀ shown, g.render (settings.withBorders shown) name = .ok ⟨name, graph', l,
        ((g.canvas settings.layout chart).withBorders shown).page l.track⟩ := by
  have hlayout (shown : Bool) : (settings.withBorders shown).layout = settings.layout := rfl
  simp only [render_eq, chart_withBorders, hlayout]
  cases settings.layout.validate with
  | error e => exact .inl ⟨_, fun _ => rfl⟩
  | ok _ =>
    cases Grammar.chart settings with
    | error e => exact .inl ⟨e, fun _ => rfl⟩
    | ok chart =>
      rw [Grammar.graph]
      cases g.graph? name with
      | none => exact .inl ⟨_, fun _ => rfl⟩
      | some graph =>
        simp only [Except.map, bind, Except.bind, drawn, hlayout]
        cases hl : graph.layout (.ofSymbols settings.layout g.symbols) with
        | mk result graph' =>
          cases result with
          | error e => exact .inl ⟨_, fun _ => rfl⟩
          | ok l => exact .inr ⟨chart, graph, graph', l, rfl, hl, fun _ => rfl⟩

/-- **Borders only add frames.**  With borders and without them a production of a grammar is drawn
from the same layout, or not at all for the same reason, and without its frames the one drawing is
the other.  Each node but the further branches of alternations has one frame, of its size and with
its top.  How labels are shaped and colors are read does not matter.

The first case is the same failure for both, so whether borders are shown cannot decide whether
there is a drawing. -/
theorem render_borders {g : Grammar} (hg : g.Reached) (settings : Settings α) (name : String) :
    (∃ failure, ∀ shown, g.render (settings.withBorders shown) name = .error failure) ∨
    ∃ d : Diagram α, g.render (settings.withBorders true) name = .ok d ∧
      g.render (settings.withBorders false) name
        = .ok { d with marks := d.marks.filter (!·.isFrame) } ∧
      ∃ cells : List (Cell α),
        d.marks.filterMap Primitive.frame? = cells.map (fun c => (c.box.top, c.extent)) ∧
        (cells.map (·.id)).Perm
          ((List.range d.graph.nodes.size).filter fun id => !d.graph.furtherBranches.contains id) ∧
        ∀ c ∈ cells, (d.graph.cells d.layout.track)[c.id]? = some c := by
  refine (g.render_withBorders settings name).imp_right ?_
  rintro ⟨chart, graph, graph', l, hgraph, hl, hrender⟩
  obtain ⟨registry, collapsing, p, hcompile⟩ := hg.isCompiled_of_graph? hgraph
  obtain ⟨t, htree, hspots, -⟩ := Build.page_of_compile hcompile [] hl
  have hbordered := (g.canvas settings.layout chart).bordered_page l.track
  refine ⟨_, hrender true, ?_, l.track.items.map Item.mark, hbordered.filterMap_eq, ?_, ?_⟩
  · rw [hrender false, hbordered.filter_eq]
  · rw [List.map_map]
    exact (Graph.ids_items htree hspots) ▸ htree.perm_mark
  · refine List.forall_mem_map.mpr fun item hitem => ?_
    exact Graph.cells_getElem? htree hspots
      (Track.mem_toList_iff.mpr ⟨item, hitem, item.mark_mem_marks⟩)

end Drawing

/-- Both words, the loop and the choice have a frame, but not its second branch. -/
theorem render_borders_repeatedChoice : repeatedChoice.Reached ∧
    ∃ d : Diagram Rat, repeatedChoice.render (Settings.withBorders .fixed true) "p" = .ok d ∧
      repeatedChoice.render (Settings.withBorders .fixed false) "p"
        = .ok { d with marks := d.marks.filter (!·.isFrame) } ∧
      ∃ cells : List (Cell Rat),
        d.marks.filterMap Primitive.frame? = cells.map (fun c => (c.box.top, c.extent)) ∧
        (cells.map (·.id)).Perm [0, 1, 2, 4] := by
  have hreached : repeatedChoice.Reached := Reached.empty.add true Railroad.repeatedChoice
  have hframed : (repeatedChoice.render (α := Rat) (.withBorders .fixed true) "p").toOption.map
      (fun d => (List.range d.graph.nodes.size).filter fun id =>
        !d.graph.furtherBranches.contains id) = some [0, 1, 2, 4] := by
    decide +kernel
  rcases render_borders hreached (Settings.fixed (α := Rat)) "p" with ⟨failure, hfails⟩ |
      ⟨d, hd, hplain, cells, hframes, hids, -⟩
  · rw [hfails true] at hframed
    cases hframed
  · rw [hd] at hframed
    exact ⟨hreached, d, hd, hplain, cells, hframes, Option.some.inj hframed ▸ hids⟩

end Grammar

end Railroad
