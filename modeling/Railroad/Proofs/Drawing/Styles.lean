/-
# Styles stay with their nodes

A symbol may bring its own colors and its own font; no other node of a compiled graph does, and
layouts do not change that (`Graph.Plain`).

So a drawing falls apart into the marks of its symbols, each symbol's in its own style, with its
connector, and the marks of the chart around them, which are all in the style of the chart
(`Canvas.InStyle`), whatever the symbols override.  A single pen can draw it: it comes out of every
level with the brush that it went in with (`layout_inStyle`).

What is in style is stated of the list of marks alone (`InStyle`), with the symbols of the level in
the order in which they are read.  A mark that is not accounted for by a symbol must be one of the
chart; so nothing can leak from one node into the drawing of another, neither into a neighbor nor
into what is around it.
-/
import Railroad.Proofs.Build.Symbols
import Railroad.Proofs.Drawing.Pen
import Railroad.Proofs.Drawing.ReadingOrder
import Railroad.Proofs.Graph.Found

namespace Railroad

open Scalar

/-! ## 1. Graphs in which only symbols have a style -/

/-- A node has a style of its own only if it is a symbol. -/
def Node.Plain (node : Node) : Prop := node.kind.isSymbol = false → node.style = {}

namespace Build

/-- Only the symbols of a draft have styles of their own. -/
def Draft.Plain (d : Draft) : Prop :=
  ∀ (id : Nat) (node : Node), d.arena id = some node → node.Plain

/-- **A step of building gives no style to a construct.** -/
theorem Draft.Plain.step {d d' : Draft} (hstep : Draft.Step d d') (h : d.Plain) : d'.Plain := by
  cases hstep with
  | symbol kind leaf =>
    intro id node hn
    rw [Made.arena_symbol] at hn
    split at hn
    · cases hn
      cases kind <;> exact fun hkind => absurd hkind.symm Bool.false_ne_true
    · exact h id node hn
  | construct node hnode =>
    intro id x hx
    rw [arena_push] at hx
    split at hx
    · cases hx
      exact fun _ => (hnode _).2.2.2
    · exact h id x hx
  | relink place change hchange =>
    intro id x hx
    rw [arena, Array.getElem?_modify] at hx
    split at hx
    · obtain ⟨before, hbefore, rfl⟩ := Option.map_eq_some_iff.mp hx
      obtain ⟨-, hkind, -, hstyle⟩ := hchange before
      rw [Node.Plain, hkind, hstyle]
      exact h id before hbefore
    · exact h id x hx

end Build

/-- **Only the symbols of a graph have styles of their own.** -/
def Graph.Plain (g : Graph) : Prop := ∀ node ∈ g.nodes, node.Plain

theorem Build.plain_of_compile {registry : Registry} {collapsing : Bool} {p : Production}
    {g : Graph} (h : (compile registry collapsing p).1 = .ok g) : g.Plain := by
  obtain ⟨d, hadvances, -, hnodes⟩ := compile_advances registry collapsing p
  have hd : d.Plain := hadvances.keeps (fun _ _ => Draft.Plain.step) fun id node hn => by cases hn
  intro node hnode
  rw [hnodes g h] at hnode
  obtain ⟨id, hid, rfl⟩ := Array.mem_iff_getElem.mp hnode
  exact hd id _ (Array.getElem?_eq_getElem hid)

namespace Graph.Plain

variable {g : Graph}

theorem insertWrap (h : g.Plain) (id : NodeId) : (g.insertWrap id).Plain := by
  intro node hnode
  obtain ⟨place, hplace⟩ := Array.mem_iff_getElem?.mp hnode
  simp only [Graph.insertWrap, Graph.modify, Array.getElem?_modify, Array.getElem?_push] at hplace
  have hold : ∀ x, (if place = g.nodes.size then
      some { serial := g.nextSerial, kind := .wrap, next := (g.nodes[id]?).bind (·.next) }
      else g.nodes[place]?) = some x → x.Plain := by
    intro x hx
    split at hx
    · exact Option.some.inj hx ▸ fun _ => rfl
    · exact h x (Array.mem_of_getElem? hx)
  split at hplace
  · obtain ⟨before, hbefore, rfl⟩ := Option.map_eq_some_iff.mp hplace
    exact hold before hbefore
  · exact hold node hplace

theorem breakAfter (h : g.Plain) (id : NodeId) : (g.breakAfter id).1.Plain := by
  unfold Graph.breakAfter
  split
  · exact h
  · exact h.insertWrap id

theorem breakAfterAll : ∀ (ids : List NodeId) {g : Graph}, g.Plain → (g.breakAfterAll ids).1.Plain
  | [], _, h => h
  | id :: ids, _, h => breakAfterAll ids (h.breakAfter id)

variable {α : Type} [Scalar α]

theorem layout (h : g.Plain) (r : Ruler α) : (g.layout r).2.Plain := by
  rw [layout_snd, breakRows_eq]
  exact breakAfterAll _ h

/-- **Layouts give no style to a construct.** -/
theorem afterLayouts : ∀ (rulers : List (Ruler α)) {g : Graph}, g.Plain →
    (g.afterLayouts rulers).Plain
  | [], _, h => h
  | r :: rulers, _, h => afterLayouts rulers (h.layout r)

end Graph.Plain

variable {α : Type} [Scalar α]

/-- Only a symbol has a style of its own. -/
def Item.Plain (item : Item (Cell α)) : Prop :=
  item.isSymbol = false → ∀ c ∈ item.marks, c.node.style = {}

omit [Scalar α] in
theorem Item.Proper.plain {item : Item (Cell α)} (h : item.Proper (·.node.kind))
    (hplain : ∀ c ∈ item.marks, c.node.Plain) : item.Plain := by
  intro hsymbol c hc
  refine hplain c hc ?_
  cases item with
  | symbol _ => cases hsymbol
  | epsilon _ | wrap _ =>
    obtain rfl := List.mem_singleton.mp hc
    exact congrArg NodeKind.isSymbol h
  | optional _ _ | iteration _ _ | rerun _ _ _ =>
    obtain rfl := List.mem_singleton.mp hc
    exact congrArg NodeKind.isSymbol h.1
  | choice branches =>
    rw [Item.marks, Track.marks_eq_levels] at hc
    obtain ⟨level, hlevel, rfl⟩ := List.mem_map.mp hc
    exact congrArg NodeKind.isSymbol (h level hlevel).1

/-! ## 2. The symbols of a level -/

namespace Track

mutual

/-- **The symbols of a level in reading order,** each with whether a connector joins it to the next
one. -/
def symbols : Track (Cell α) → List (Cell α × Bool)
  | .stop => []
  | .symbol c rest => (c, rest.connects Cell.breaks) :: rest.symbols
  | .epsilon _ rest => rest.symbols
  | .wrap _ rest => rest.symbols
  | .optional _ body rest => body.symbols ++ rest.symbols
  | .iteration _ body rest => body.symbols ++ rest.symbols
  | .rerun _ body between rest => body.symbols ++ (between.symbols ++ rest.symbols)
  | .choice branches rest => branchSymbols branches ++ rest.symbols

/-- The symbols of branches, from top to bottom. -/
def branchSymbols : Branches (Cell α) → List (Cell α × Bool)
  | .last _ body => body.symbols
  | .more _ body others => body.symbols ++ branchSymbols others

end

theorem branchSymbols_eq : ∀ bs : Branches (Cell α),
    branchSymbols bs = bs.levels.flatMap fun level => level.2.symbols
  | .last _ _ => (List.flatMap_singleton ..).symm
  | .more _ body others => congrArg (body.symbols ++ ·) (branchSymbols_eq others)

theorem symbols_before {item : Item (Cell α)} (h : item.isSymbol = false) (rest : Track (Cell α)) :
    (item.before rest).symbols = item.levels.flatMap symbols ++ rest.symbols := by
  cases item with
  | symbol _ => cases h
  | choice branches => rw [Item.before, symbols, branchSymbols_eq, Item.levels, List.flatMap_map]
  | _ => simp [Item.before, symbols, Item.levels]

/-- They are the symbols that there are to read. -/
theorem map_fst_symbols (t : Track (Cell α)) : ∀ ways : Nat,
    t.symbols.map Prod.fst = (t.readings ways).map Prod.fst := by
  induction t using item_induction with
  | stop => exact fun _ => rfl
  | before item rest inside ih =>
    intro ways
    rw [readings_before, List.map_append, ← ih ways]
    cases item with
    | symbol c => rfl
    | epsilon _ | wrap _ => rfl
    | optional c body =>
      rw [Item.readings, ← inside body (List.mem_singleton_self _)]
      exact List.map_append
    | iteration c body =>
      rw [Item.readings, ← inside body (List.mem_singleton_self _)]
      exact List.map_append
    | rerun c body between =>
      obtain ⟨hbody, hback⟩ := List.forall_mem_cons.mp inside
      rw [Item.readings, List.map_append, ← hbody, ← List.forall_mem_singleton.mp hback,
        Item.before, symbols, List.map_append, List.map_append, List.append_assoc]
    | choice branches =>
      rw [Item.readings, symbols_before rfl, List.map_append, List.map_flatMap, List.map_flatMap,
        Item.levels, List.flatMap_map]
      congr 1
      exact List.flatMap_congr fun level hlevel => inside level.2 (List.mem_map_of_mem hlevel) ways

end Track

/-! ## 3. Marks in style -/

namespace Canvas

/-- **A mark of the chart:** a piece of track or an arrow head in the style of the chart, or a
frame. -/
def OnChart (cv : Canvas α) : Primitive α → Prop
  | .line _ _ stroke => stroke = ⟨cv.chart.line, cv.chart.lineWidth, .solid⟩
  | .arc _ _ _ stroke => stroke = ⟨cv.chart.line, cv.chart.lineWidth, .solid⟩
  | .arrow _ _ _ color => color = cv.chart.line
  | .frame _ _ stroke => ∃ kind, stroke = ⟨cv.frameColor kind, 0.5, .dashed⟩
  | .rect .. => False
  | .text .. => False

/-- **The marks of a symbol in its own style:** its box, its label and its arrow head, and the
connector to the next symbol, if it is joined to one.  What the node leaves open is as on the chart.
The marks come in the order in which they are drawn. -/
def Dressed (cv : Canvas α) (c : Cell α) (joined : Bool) (marks : List (Primitive α)) : Prop :=
  let style := c.node.style
  let line := style.line.getD cv.chart.line
  ∃ origin size radius width center tip direction start stop,
    marks = [.rect origin size radius ⟨line, width, .solid⟩ (some cv.chart.fill),
      .text (cv.label c.node) center (style.font.getD cv.settings.font)
        (style.label.getD cv.chart.text),
      .arrow tip direction cv.settings.arrowSize line] ++
      if joined then [.line start stop ⟨line, cv.chart.lineWidth, .solid⟩] else []

/-- **Marks in style:** those of some symbols, each symbol's in its own, and in between marks of the
chart.  So no mark is left without an owner. -/
inductive InStyle (cv : Canvas α) : List (Cell α × Bool) → List (Primitive α) → Prop where
  | nil : InStyle cv [] []
  | chart {symbols : List (Cell α × Bool)} {marks : List (Primitive α)} {mark : Primitive α}
    (h : cv.OnChart mark) (rest : InStyle cv symbols marks) : InStyle cv symbols (mark :: marks)
  | symbol {symbols : List (Cell α × Bool)} {marks own : List (Primitive α)} {c : Cell α}
    {joined : Bool} (h : cv.Dressed c joined own) (rest : InStyle cv symbols marks) :
    InStyle cv ((c, joined) :: symbols) (own ++ marks)

variable {cv : Canvas α}

namespace InStyle

theorem append {symbols symbols' : List (Cell α × Bool)} {marks marks' : List (Primitive α)}
    (h : cv.InStyle symbols marks) (h' : cv.InStyle symbols' marks') :
    cv.InStyle (symbols ++ symbols') (marks ++ marks') := by
  induction h with
  | nil => exact h'
  | chart hmark _ ih => exact .chart hmark ih
  | symbol hown _ ih =>
    rw [List.append_assoc]
    exact .symbol hown ih

theorem ofTrack : ∀ {marks : List (Primitive α)}, (∀ mark ∈ marks, mark.IsTrack cv.brush) →
    cv.InStyle [] marks
  | [], _ => .nil
  | mark :: _, h => by
    obtain ⟨hmark, hmarks⟩ := List.forall_mem_cons.mp h
    refine .chart ?_ (ofTrack hmarks)
    cases mark <;> first | exact hmark | exact hmark.elim

theorem ofSymbol {c : Cell α} {joined : Bool} {own : List (Primitive α)}
    (h : cv.Dressed c joined own) : cv.InStyle [(c, joined)] own := by
  simpa using InStyle.symbol h .nil

end InStyle

/-- Track of the chart does not change what symbols there are. -/
theorem InStyle.track_append {symbols : List (Cell α × Bool)} {marks marks' : List (Primitive α)}
    (h : ∀ mark ∈ marks, mark.IsTrack cv.brush) (h' : cv.InStyle symbols marks') :
    cv.InStyle symbols (marks ++ marks') :=
  (InStyle.ofTrack h).append h'

omit [Scalar α] in
@[simp] theorem override_empty (b : Brush α) : b.override {} = b := rfl

theorem inStyle_frame (c : Cell α) (left : α) : cv.InStyle [] (cv.frame c left) := by
  unfold frame
  split
  · exact .chart ⟨_, rfl⟩ .nil
  · exact .nil

/-! ## 4. Levels in style -/

/-- A symbol is drawn in its own style. -/
theorem dressed_symbol (d : Direction) (c : Cell α) (left x x' y : α) (joined : Bool) :
    cv.Dressed c joined (cv.symbol (cv.brush.override c.node.style) d left c ++
      if joined then [Canvas.line (cv.brush.override c.node.style) x y x' y] else []) := by
  unfold symbol
  cases c.node.kind <;> exact ⟨_, _, _, _, _, _, _, ⟨x, y⟩, ⟨x', y⟩, rfl⟩

/-- **A node is drawn in style** if what is inside its frame and what follows it are. -/
theorem inStyle_node {symbols symbols' : List (Cell α × Bool)} {d : Direction} {c : Cell α}
    {left cursor : α} {content : List (Primitive α)} {connected last : Bool} {rest : α → Drawn α}
    (hcontent : ∀ next, cv.InStyle symbols (content ++ if connected then
      [Canvas.line (cv.brush.override c.node.style) cursor c.box.line next c.box.line] else []))
    (hrest : ∀ next, cv.InStyle symbols' (rest next).marks) :
    cv.InStyle (symbols ++ symbols')
      (cv.node cv.brush d c left cursor content connected last rest).marks := by
  rw [marks_node]
  exact (inStyle_frame c left).append
    ((hcontent _).append (.track_append (isTrack_closing _ _ _ _) (hrest _)))

theorem inStyle_branchMarks {d : Direction} {x width : α} : ∀ {bs : Branches (Cell α)}
    {first : Bool}, (∀ c ∈ bs.marks, c.node.style = {}) →
    (∀ level ∈ bs.levels, ∀ (d : Direction) (cursor : α),
      cv.InStyle level.2.symbols (cv.track cv.brush d cursor level.2).marks) →
    cv.InStyle (Track.branchSymbols bs) (cv.branchMarks cv.brush d x width first bs)
  | .last c body, first, hplain, inside => by
    have hbrush : (if first then cv.brush else cv.brush.override c.node.style) = cv.brush := by
      rw [List.forall_mem_singleton.mp hplain, override_empty, ite_self]
    rw [branchMarks, hbrush]
    exact .track_append (isTrack_branchRails _ _ _ _ _ _ _)
      (List.forall_mem_singleton.mp inside _ _)
  | .more c body others, first, hplain, inside => by
    obtain ⟨hc, hothers⟩ := List.forall_mem_cons.mp hplain
    obtain ⟨hbody, hinside⟩ := List.forall_mem_cons.mp inside
    have hbrush : (if first then cv.brush else cv.brush.override c.node.style) = cv.brush := by
      rw [hc, override_empty, ite_self]
    rw [branchMarks, hbrush, List.append_assoc, Track.branchSymbols]
    exact .track_append (isTrack_branchRails _ _ _ _ _ _ _)
      ((hbody _ _).append (inStyle_branchMarks hothers hinside))

/-- A node that is no symbol is drawn in style if the levels inside it are. -/
theorem inStyle_itemMarks {item : Item (Cell α)} {d : Direction} {left : α}
    (hsymbol : item.isSymbol = false) (hplain : ∀ c ∈ item.marks, c.node.style = {})
    (inside : ∀ level ∈ item.levels, ∀ (d : Direction) (cursor : α),
      cv.InStyle level.symbols (cv.track cv.brush d cursor level).marks) :
    cv.InStyle (item.levels.flatMap Track.symbols) (cv.itemMarks cv.brush d left item) := by
  cases item with
  | symbol c => cases hsymbol
  | epsilon c => exact .ofTrack (isTrack_epsilon _ _ _)
  | wrap c => exact .nil
  | optional c body =>
    rw [Item.levels, List.flatMap_singleton]
    exact .track_append (isTrack_bypass _ _ _) (inside body (List.mem_singleton_self _) _ _)
  | iteration c body =>
    rw [Item.levels, List.flatMap_singleton]
    exact .track_append (isTrack_iterationRails _ _ _ _)
      (inside body (List.mem_singleton_self _) _ _)
  | rerun c body between =>
    obtain ⟨hbody, hback⟩ := List.forall_mem_cons.mp inside
    have hbetween := List.forall_mem_singleton.mp hback
    rw [Item.levels, List.flatMap_cons, List.flatMap_singleton, itemMarks, List.append_assoc]
    exact .chart rfl (.chart rfl ((hbody _ _).append
      (.track_append (isTrack_rerunRails _ _ _ _ _ _ _) (hbetween _ _))))
  | choice branches =>
    have hlevels : ∀ level ∈ branches.levels, ∀ (d : Direction) (cursor : α),
        cv.InStyle level.2.symbols (cv.track cv.brush d cursor level.2).marks :=
      List.forall_mem_map.mp inside
    rw [Item.levels, List.flatMap_map, ← Track.branchSymbols_eq]
    exact .track_append (isTrack_choiceRails _ _ _) (inStyle_branchMarks hplain hlevels)

/-- A wrap is drawn in the style of the chart, too. -/
theorem inStyle_content {item : Item (Cell α)} {d : Direction} {cursor : α}
    {rest : Track (Cell α)} (hsymbol : item.isSymbol = false)
    (hplain : ∀ c ∈ item.marks, c.node.style = {})
    (inside : ∀ level ∈ item.levels, ∀ (d : Direction) (cursor : α),
      cv.InStyle level.symbols (cv.track cv.brush d cursor level).marks) :
    cv.InStyle (item.levels.flatMap Track.symbols) (cv.content cv.brush d cursor rest item) := by
  cases item with
  | wrap c => exact .ofTrack (isTrack_rowTurn _ _ _ _ _)
  | _ => exact inStyle_itemMarks (d := d) hsymbol hplain inside

/-- **A level is drawn in style,** its symbols in reading order. -/
theorem inStyle_track (t : Track (Cell α)) : (∀ item ∈ t.items, item.Plain) →
    ∀ (d : Direction) (cursor : α), cv.InStyle t.symbols (cv.track cv.brush d cursor t).marks := by
  induction t using Track.item_induction with
  | stop => exact fun _ _ _ => .nil
  | before item rest inside ih =>
    intro h d cursor
    obtain ⟨hitem, hinside, hrest⟩ := Track.forall_items_before.mp h
    rw [track_before]
    cases hsymbol : item.isSymbol with
    | true =>
      cases item with
      | symbol c =>
        exact inStyle_node (fun _ => .ofSymbol (dressed_symbol _ _ _ _ _ _ _)) (ih hrest d)
      | _ => cases hsymbol
    | false =>
      have hconnected : connected rest item = false := by
        cases item <;> first | rfl | cases hsymbol
      have hplain := hitem hsymbol
      rw [hconnected, hplain _ item.mark_mem_marks, override_empty,
        Track.symbols_before hsymbol]
      refine inStyle_node (fun _ => ?_) (ih hrest d)
      rw [if_neg Bool.false_ne_true, List.append_nil]
      exact inStyle_content hsymbol hplain fun level hlevel =>
        inside level hlevel (hinside level hlevel)

/-- A page is drawn in style. -/
theorem inStyle_page {page : Track (Cell α)} (h : ∀ item ∈ page.items, item.Plain) :
    cv.InStyle page.symbols (cv.page page) :=
  .chart rfl (inStyle_track page h .forward _)

end Canvas

/-! ## 5. Diagrams in style -/

/-- An alternation without its first branch is as good as it was. -/
theorem Item.proper_further {β : Type} {kind : β → NodeKind} {b : β} {body : Track β}
    {others : Branches β} (h : (Item.choice (.more b body others)).Proper kind) :
    (Item.choice others).Proper kind :=
  fun level hlevel => h level (List.mem_cons_of_mem _ hlevel)

omit [Scalar α] in
theorem Item.Plain.further {c : Cell α} {body : Track (Cell α)} {others : Branches (Cell α)}
    (h : (Item.choice (.more c body others)).Plain) : (Item.choice others).Plain :=
  fun hsymbol c hc => h hsymbol c (List.mem_cons_of_mem _ hc)

/-- **A level begins with each node of a page.**  It is the one that is read off the graph from
there. -/
theorem Graph.exists_level {g : Graph} {t : Track NodeId} {page : Track (Cell α)}
    (h : g.HasTree Exit.Similar t) (hpage : page.map Cell.toSpot = g.track) {id : Nat}
    (hid : id < g.nodes.size) : ∃ level, page.find? (·.id == id) = some level ∧
      level.Begins page ∧ level.map Cell.toSpot = g.trackFrom id ∧
      level.first?.map (·.id) = some id := by
  obtain ⟨c, -, hc, hcid, -⟩ := Graph.exists_cell h hpage (Array.getElem?_eq_getElem hid)
  obtain ⟨level, first, hfind, hlevel, hfirst, hfirstid⟩ :=
    Track.exists_find? (p := (·.id == id)) hc (beq_iff_eq.mpr hcid)
  obtain ⟨places, place, hplaces, hbegins, hplace, hplaceid⟩ :=
    Track.exists_find? (p := fun place => (g.spotAt place).id == id)
      ((h.mem_iff id).mpr hid) (beq_self_eq_true id)
  -- The search comes to the same level on the page and among the places of the graph.
  have hspots := congrArg (Track.find? (·.id == id)) (hpage.trans h.track_eq)
  rw [Track.find?_map, Track.find?_map, hfind, hplaces] at hspots
  have hread := h.trackFrom_eq hbegins (hplace.trans (congrArg some (beq_iff_eq.mp hplaceid)))
  refine ⟨level, hfind, hlevel, (Option.some.inj hspots).trans hread.symm, ?_⟩
  rw [hfirst, Option.map_some, beq_iff_eq.mp hfirstid]

/-- **Styles stay with their nodes.**  In the layout of a compiled graph, whatever layouts came
before, a level begins with each node, the one that is read off the graph from there.  Drawn in
either direction and from any cursor, it has the marks of its symbols, each symbol's in its own
style, and all other marks are in the style of the chart; a pen that draws it makes these marks and
leaves with the brush it came with.  The same holds of the page, on which each node is once.

It is said of each node because a level is drawn node by node: what is left of a level, from any of
its nodes on, is drawn like a level of its own. -/
theorem layout_inStyle {registry : Build.Registry} {collapsing : Bool} {p : Production} {g : Graph}
    (h : (Build.compile registry collapsing p).1 = .ok g) (rulers : List (Ruler α)) {r : Ruler α}
    {l : Layout α} {g' : Graph} (hl : (g.afterLayouts rulers).layout r = (.ok l, g'))
    (cv : Canvas α) :
    (∀ id < g'.nodes.size, ∃ level, l.track.find? (·.id == id) = some level ∧
      level.map Cell.toSpot = g'.trackFrom id ∧ level.first?.map (·.id) = some id ∧
      level.symbols.map Prod.fst = level.toList.filter (·.node.kind.isSymbol) ∧
      ∀ (d : Direction) (cursor : α),
        cv.InStyle level.symbols (cv.track cv.brush d cursor level).marks ∧
        Pen.Draws (cv.drawLevel d cursor level) (cv.track cv.brush d cursor level).cursor
          fun b => (cv.track b d cursor level).marks) ∧
    (l.track.toList.map (·.id)).Perm (List.range g'.nodes.size) ∧
    l.track.symbols.map Prod.fst = l.track.toList.filter (·.node.kind.isSymbol) ∧
    cv.InStyle l.track.symbols (cv.page l.track) ∧
    ((cv.drawPage l.track).run ⟨cv.brush, []⟩).2 = ⟨cv.brush, cv.page l.track⟩ := by
  obtain ⟨t, htree, hspots, hproper⟩ := Build.page_of_compile h rulers hl
  have hplain := ((Build.plain_of_compile h).afterLayouts rulers).layout r
  rw [hl] at hplain
  have hnode : ∀ c ∈ l.track.toList, g'.nodes[c.id]? = some c.node :=
    fun c hc => Graph.node_page htree hspots hc
  have hitems : ∀ item ∈ l.track.items, item.Plain := fun item hitem =>
    (hproper item hitem).plain fun c hc => hplain _
      (Array.mem_of_getElem? (hnode c (Track.mem_toList_iff.mpr ⟨item, hitem, hc⟩)))
  refine ⟨fun id hid => ?_, ?_, ?_, Canvas.inStyle_page hitems, ?_⟩
  · obtain ⟨level, hfind, hlevel, hread, hfirst⟩ := Graph.exists_level htree hspots hid
    have hlevelProper := hlevel.forall_items (fun _ _ _ => Item.proper_further) hproper
    have hlevelPlain := hlevel.forall_items (fun _ _ _ => Item.Plain.further) hitems
    refine ⟨level, hfind, hread, hfirst, ?_, fun d cursor =>
      ⟨Canvas.inStyle_track level hlevelPlain d cursor, Canvas.draws_level level d cursor⟩⟩
    rw [Track.map_fst_symbols level 0, Track.map_fst_readings level hlevelProper]
  · rw [Graph.ids_page htree hspots]
    exact htree.perm_range
  · rw [Track.map_fst_symbols l.track 0, Track.map_fst_readings l.track hproper]
  · rw [Canvas.draws_page l.track]
    rfl

/-- The production `p = "a" "b"`, with the outline of the first word in a color. -/
def paintedWord (color : Color) : Production where
  name := "p"
  expr := .sequence [.literal ⟨"a", { line := some color }⟩, .literal ⟨"b", {}⟩]

/-- Its graph. -/
def paintedWordGraph (color : Color) : Graph where
  nodes := #[
    { serial := 0, kind := .terminal, symbol := some 0, style := { line := some color },
      next := some 1 },
    { serial := 1, kind := .terminal, symbol := some 1 }]
  entry := 0

theorem compile_paintedWord (color : Color) :
    (Build.compile {} true (paintedWord color)).1 = .ok (paintedWordGraph color) := by cbv

/-- Only the first word is red, with the connector to the second one. -/
theorem layout_inStyle_redWord :
    (Build.compile {} true (paintedWord (.ofName "red"))).1
        = .ok (paintedWordGraph (.ofName "red")) ∧
      ∃ (l : Layout Rat) (g' : Graph),
        (paintedWordGraph (.ofName "red")).layout repeatedChoiceRuler = (.ok l, g') ∧
        l.track.symbols.map (fun (c, joined) => (c.node.style.line.isSome, joined))
          = [(true, true), (false, false)] ∧
        ∀ cv : Canvas Rat, cv.InStyle l.track.symbols (cv.page l.track) := by
  have hg := compile_paintedWord (.ofName "red")
  have hok : ((paintedWordGraph (.ofName "red")).layout repeatedChoiceRuler).1.toOption.map
      (fun l => l.track.symbols.map fun (c, joined) => (c.node.style.line.isSome, joined))
        = some [(true, true), (false, false)] := by
    decide +kernel
  cases hl : ((paintedWordGraph (.ofName "red")).layout repeatedChoiceRuler).1 with
  | error e => rw [hl] at hok; cases hok
  | ok l =>
    rw [hl] at hok
    have hlayout : ((paintedWordGraph (.ofName "red")).afterLayouts ([] : List (Ruler Rat))).layout
        repeatedChoiceRuler = (.ok l, _) := Prod.ext hl rfl
    exact ⟨hg, l, _, hlayout, Option.some.inj hok, fun cv =>
      (layout_inStyle hg [] hlayout cv).2.2.2.1⟩

end Railroad
