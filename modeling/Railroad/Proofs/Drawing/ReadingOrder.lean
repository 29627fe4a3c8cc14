/-
# Drawings in reading order

A drawing shows the symbols of its production in reading order, each with its box, its label and an
arrow head, which points back on the ways back of loops; at its end is one more arrow head.

What there is to read is a property of the tree of a graph (`Track.readings`), and wraps are nothing
to read.  What is drawn along a level is what there is to read on it (`Canvas.glyphs_signs`).

How many ways back a symbol lies on is counted on the way down, and whether its arrow head points
forward or back is whether that number is even.  Nothing about it has to be found out from the
drawing. The labels come in the order of the nodes since each node draws itself before what follows
it; the direction of the walk changes where a node is drawn and not when.
-/
import Mathlib
import Railroad.Proofs.Drawing.Signs
import Railroad.Proofs.Grammar.Reached
import Railroad.Proofs.Layout.Integrity
import Railroad.Proofs.Layout.Nesting

namespace Railroad

open Scalar

/-! ## 1. Reading order -/

section Readings

variable {β γ : Type}

namespace Track

mutual

/-- **The symbols of a level in reading order,** each with the number of ways back that it lies on,
if the level lies on so many.  The level of an iteration is a way back, and so is what a rerun runs
back over.  The count goes up by one inside each of them, and its parity says which way a symbol
points. -/
def readings (ways : Nat) : Track β → List (β × Nat)
  | .stop => []
  | .symbol b rest => (b, ways) :: rest.readings ways
  | .epsilon _ rest => rest.readings ways
  | .wrap _ rest => rest.readings ways
  | .optional _ body rest => body.readings ways ++ rest.readings ways
  | .iteration _ body rest => body.readings (ways + 1) ++ rest.readings ways
  | .rerun _ body between rest =>
    body.readings ways ++ between.readings (ways + 1) ++ rest.readings ways
  | .choice branches rest => branchReadings ways branches ++ rest.readings ways

/-- The symbols of branches, from top to bottom. -/
def branchReadings (ways : Nat) : Branches β → List (β × Nat)
  | .last _ body => body.readings ways
  | .more _ body others => body.readings ways ++ branchReadings ways others

end

end Track

/-- The symbols of a node in reading order. -/
def Item.readings (ways : Nat) : Item β → List (β × Nat)
  | .symbol b => [(b, ways)]
  | .epsilon _ => []
  | .wrap _ => []
  | .optional _ body => body.readings ways
  | .iteration _ body => body.readings (ways + 1)
  | .rerun _ body between => body.readings ways ++ between.readings (ways + 1)
  | .choice branches => branches.levels.flatMap fun level => level.2.readings ways

namespace Track

theorem branchReadings_eq (ways : Nat) (bs : Branches β) :
    branchReadings ways bs = bs.levels.flatMap fun level => level.2.readings ways := by
  cases bs with
  | last _ _ => exact (List.flatMap_singleton ..).symm
  | more _ body others => exact congrArg (body.readings ways ++ ·) (branchReadings_eq ways others)

theorem readings_before (ways : Nat) (item : Item β) (rest : Track β) :
    (item.before rest).readings ways = item.readings ways ++ rest.readings ways := by
  cases item with
  | choice branches => rw [Item.before, readings, branchReadings_eq, Item.readings]
  | _ => rfl

/-- A node is read as what is attached to it. -/
theorem readings_map (f : β → γ) (t : Track β) : ∀ ways : Nat,
    (t.map f).readings ways = (t.readings ways).map (Prod.map f id) := by
  induction t using item_induction with
  | stop => exact fun _ => rfl
  | before item rest inside ih =>
    intro ways
    have hitem : (item.map f).readings ways = (item.readings ways).map (Prod.map f id) := by
      cases item with
      | symbol _ | epsilon _ | wrap _ => rfl
      | optional _ body => exact inside body (List.mem_singleton_self _) ways
      | iteration _ body => exact inside body (List.mem_singleton_self _) (ways + 1)
      | rerun _ body between =>
        obtain ⟨hbody, hbetween⟩ := List.forall_mem_cons.mp inside
        rw [Item.map, Item.readings, Item.readings, List.map_append, hbody,
          List.forall_mem_singleton.mp hbetween]
      | choice branches =>
        rw [Item.map, Item.readings, Item.readings, levels_mapBranches, List.flatMap_map,
          List.map_flatMap]
        exact List.flatMap_congr fun level hlevel =>
          inside level.2 (List.mem_map_of_mem hlevel) ways
    rw [map_before, readings_before, readings_before, List.map_append, hitem, ih]

theorem readings_behind (ways : Nat) (wrap : Option β) (rest : Track β) :
    (behind wrap rest).readings ways = rest.readings ways := by
  cases wrap <;> rfl

/-- **Wraps are nothing to read.** -/
theorem readings_withWraps (ways : Nat) (w : β → Option β) (t : Track β) :
    (t.withWraps w).readings ways = t.readings ways := by
  cases t with
  | stop => rfl
  | symbol _ rest | epsilon _ rest | wrap _ rest | optional _ _ rest | iteration _ _ rest
  | rerun _ _ _ rest | choice _ rest =>
    simp only [withWraps, readings, readings_behind, readings_withWraps ways w rest]

/-- **Each symbol is read once.** -/
theorem map_fst_readings {kind : β → NodeKind} (t : Track β) :
    (∀ item ∈ t.items, item.Proper kind) → ∀ ways : Nat,
    (t.readings ways).map Prod.fst = t.toList.filter fun b => (kind b).isSymbol := by
  induction t using item_induction with
  | stop => exact fun _ _ => rfl
  | before item rest inside ih =>
    intro h ways
    obtain ⟨hproper, hinside, hrest⟩ := forall_items_before.mp h
    have hlevels := fun level hlevel => inside level hlevel (hinside level hlevel)
    have hahead := ih hrest ways
    have hskip {b : β} {k : NodeKind} (hb : kind b = k) (hk : k.isSymbol = false) (bs : List β) :
        (b :: bs).filter (fun b => (kind b).isSymbol) = bs.filter fun b => (kind b).isSymbol :=
      List.filter_cons_of_neg (by rw [hb, hk]; exact Bool.false_ne_true)
    rw [readings_before, List.map_append, hahead]
    cases item with
    | symbol b =>
      have hsymbol : (kind b).isSymbol = true := hproper
      rw [Item.before, toList, List.filter_cons, if_pos hsymbol]
      rfl
    | epsilon b | wrap b =>
      rw [Item.before, toList, hskip hproper rfl]
      rfl
    | optional b body =>
      rw [Item.before, toList, hskip hproper.1 rfl, List.filter_append,
        ← hlevels body (List.mem_singleton_self _) ways]
      rfl
    | iteration b body =>
      rw [Item.before, toList, hskip hproper.1 rfl, List.filter_append,
        ← hlevels body (List.mem_singleton_self _) (ways + 1)]
      rfl
    | rerun b body between =>
      obtain ⟨hbody, hbetween⟩ := List.forall_mem_cons.mp hlevels
      rw [Item.before, toList, hskip hproper.1 rfl, List.filter_append,
        List.filter_append, ← hbody ways, ← List.forall_mem_singleton.mp hbetween (ways + 1),
        ← List.map_append]
      rfl
    | choice branches =>
      rw [Item.before, toList, List.filter_append, branchList_eq, List.filter_flatMap,
        Item.readings, List.map_flatMap]
      congr 1
      refine List.flatMap_congr fun level hlevel => ?_
      rw [hskip (hproper level hlevel).1 rfl]
      exact hlevels level.2 (List.mem_map_of_mem hlevel) ways

end Track

end Readings

/-! ## 2. Signs without their places -/

/-- **What there is to see of a sign** besides its place and size. -/
inductive Glyph where
  | box
  | label (content : String)
  | arrow (direction : Direction)
deriving Repr, DecidableEq

/-- Which way a walk goes on some number of ways back. -/
def Direction.onWays (ways : Nat) : Direction := if Even ways then .forward else .reverse

theorem Direction.flip_onWays (ways : Nat) :
    (Direction.onWays ways).flip = Direction.onWays (ways + 1) := by
  by_cases h : Even ways
  · rw [onWays, onWays, if_pos h, if_neg (by simpa [Nat.even_add_one] using h)]
    rfl
  · rw [onWays, onWays, if_neg h, if_pos (by simpa [Nat.even_add_one] using h)]
    rfl

/-- What there is to see of a symbol. -/
def Glyph.ofReading (label : String) (ways : Nat) : List Glyph :=
  [.box, .label label, .arrow (.onWays ways)]

variable {α : Type} [Scalar α]

/-- What a sign looks like. -/
def Sign.glyph : Sign α → Glyph
  | .rect _ _ => .box
  | .text content => .label content
  | .arrow direction => .arrow direction

/-- What a mark looks like, if it is a sign. -/
def Primitive.glyph? (mark : Primitive α) : Option Glyph := mark.sign?.map Sign.glyph

namespace Canvas

/-- What there is to see at the end of a level: an arrow head, if it is the one of the page. -/
def endGlyphs (t : Track (Cell α)) : List Glyph :=
  if t.chain.getLast?.any (·.box.onPage) then [.arrow .forward] else []

variable {cv : Canvas α}

/-- What there is to see of the symbols of a level. -/
def glyphs (cv : Canvas α) (readings : List (Cell α × Nat)) : List Glyph :=
  readings.flatMap fun (c, ways) => Glyph.ofReading (cv.label c.node) ways

omit [Scalar α] in
theorem glyphs_append (readings readings' : List (Cell α × Nat)) :
    cv.glyphs (readings ++ readings') = cv.glyphs readings ++ cv.glyphs readings' :=
  List.flatMap_append

omit [Scalar α] in
theorem endGlyphs_of_inside {level : Track (Cell α)}
    (h : ∀ c ∈ level.chain, c.box.onPage = false) : endGlyphs level = [] := by
  rw [endGlyphs]
  cases hlast : level.chain.getLast? with
  | none => rfl
  | some c => rw [Option.any_some, h c (List.mem_of_getLast? hlast), if_neg Bool.false_ne_true]

omit [Scalar α] in
theorem endGlyphs_of_onPage {page : Track (Cell α)} (hpresent : page.isStop = false)
    (h : ∀ c ∈ page.chain, c.box.onPage = true) : endGlyphs page = [.arrow .forward] := by
  have hchain : page.chain ≠ [] := by
    cases page with
    | stop => cases hpresent
    | _ => exact List.cons_ne_nil _ _
  rw [endGlyphs, List.getLast?_eq_some_getLast hchain, Option.any_some,
    h _ (List.getLast_mem hchain), if_pos rfl]

omit [Scalar α] in
/-- The arrow head of the page comes behind its last node. -/
theorem endGlyphs_before_stop (item : Item (Cell α)) :
    endGlyphs (item.before .stop) = (closingSigns item.mark .stop).map Sign.glyph := by
  rw [endGlyphs, Track.chain_before, closingSigns, Track.chain, List.getLast?_singleton,
    Option.any_some, Track.isStop, Bool.true_and]
  cases item.mark.box.onPage <;> rfl

omit [Scalar α] in
theorem endGlyphs_before (item : Item (Cell α)) {rest : Track (Cell α)} (h : rest.isStop = false) :
    closingSigns item.mark rest = [] ∧ endGlyphs (item.before rest) = endGlyphs rest := by
  obtain ⟨c, others, hchain⟩ : ∃ c others, rest.chain = c :: others := by
    cases rest with
    | stop => cases h
    | _ => exact ⟨_, _, rfl⟩
  refine ⟨by rw [closingSigns, h, Bool.false_and, if_neg Bool.false_ne_true], ?_⟩
  rw [endGlyphs, endGlyphs, Track.chain_before, hchain, List.getLast?_cons_cons]

/-- **A node is drawn as what there is to read of it,** if its levels are. -/
theorem glyphs_item {item : Item (Cell α)}
    (inside : ∀ level ∈ item.levels, ∀ (ways : Nat) (cursor : α),
      (cv.signs (.onWays ways) cursor level).map Sign.glyph = cv.glyphs (level.readings ways))
    (ways : Nat) (left : α) : (cv.ownSigns (.onWays ways) left item ++
        cv.insideSigns (.onWays ways) left item).map Sign.glyph
      = cv.glyphs (item.readings ways) := by
  cases item with
  | symbol _ | epsilon _ | wrap _ => rfl
  | optional c body =>
    change (_ ++ []).map Sign.glyph = _
    rw [List.append_nil]
    exact inside body (List.mem_singleton_self _) ways _
  | iteration c body =>
    change (cv.signs (Direction.onWays ways).flip _ body ++ []).map Sign.glyph = _
    rw [List.append_nil, Direction.flip_onWays]
    exact inside body (List.mem_singleton_self _) (ways + 1) _
  | rerun c body between =>
    obtain ⟨hbody, hbetween⟩ := List.forall_mem_cons.mp inside
    change (cv.signs (.onWays ways) _ body ++
      (cv.signs (Direction.onWays ways).flip _ between ++ [])).map Sign.glyph = _
    rw [List.append_nil, Direction.flip_onWays, List.map_append, hbody,
      List.forall_mem_singleton.mp hbetween, Item.readings, glyphs_append]
  | choice branches =>
    change ((branches.levels.map _).flatMap _).map Sign.glyph = _
    rw [List.flatMap_map, List.map_flatMap, Item.readings, glyphs, List.flatMap_assoc]
    exact List.flatMap_congr fun level hlevel =>
      inside level.2 (List.mem_map_of_mem hlevel) ways _

/-- **A level is drawn as what there is to read on it,** and the page ends with an arrow head. -/
theorem glyphs_signs (t : Track (Cell α)) :
    (t.Inside fun level => ∀ c ∈ level.chain, c.box.onPage = false) →
    ∀ (ways : Nat) (cursor : α), (cv.signs (.onWays ways) cursor t).map Sign.glyph
      = cv.glyphs (t.readings ways) ++ endGlyphs t := by
  induction t using Track.item_induction with
  | stop => exact fun _ _ _ => rfl
  | before item rest inside ih =>
    intro h ways cursor
    obtain ⟨hitem, hinside, hrest⟩ := Track.forall_items_before.mp h
    have hlevels : ∀ level ∈ item.levels, ∀ (ways : Nat) (cursor : α),
        (cv.signs (.onWays ways) cursor level).map Sign.glyph
          = cv.glyphs (level.readings ways) := by
      intro level hlevel ways cursor
      rw [inside level hlevel (hinside level hlevel), endGlyphs_of_inside (hitem level hlevel),
        List.append_nil]
    rw [signs_before, List.map_append, List.map_append, glyphs_item hlevels, ih hrest,
      Track.readings_before, glyphs_append]
    cases hstop : rest.isStop with
    | false =>
      obtain ⟨hclosing, hend⟩ := endGlyphs_before item hstop
      rw [hclosing, hend, List.map_nil, List.append_nil, List.append_assoc]
    | true =>
      cases rest with
      | stop =>
        have hnone : cv.glyphs (Track.readings ways .stop) = [] := rfl
        have hend : endGlyphs (.stop : Track (Cell α)) = [] := rfl
        rw [endGlyphs_before_stop, hnone, hend, List.append_nil, List.append_nil, List.append_nil]
      | _ => cases hstop

/-- Behind the last node of a page an arrow head is drawn, and nothing after it. -/
theorem exists_arrow_of_node (b : Brush α) (d : Direction) {c : Cell α} (hc : c.box.onPage = true)
    (left cursor : α) (marks : List (Primitive α)) (connected : Bool) : ∃ mark,
      [mark] <:+ (cv.node b d c left cursor marks connected true fun cursor => ⟨[], cursor⟩).marks ∧
        mark.glyph? = some (.arrow .forward) := by
  rw [node, hc, closing]
  simp only [Bool.and_self, if_true, List.append_nil]
  exact ⟨_, (List.suffix_cons _ _).trans (List.suffix_append _ _), rfl⟩

/-- **The last mark of a page is the arrow head at its end.** -/
theorem exists_last_arrow (t : Track (Cell α)) : t.isStop = false →
    (∀ c ∈ t.chain, c.box.onPage = true) → ∀ (b : Brush α) (d : Direction) (cursor : α), ∃ mark,
      [mark] <:+ (cv.track b d cursor t).marks ∧ mark.glyph? = some (.arrow .forward) := by
  induction t using Track.item_induction with
  | stop => exact fun h => absurd h (by simp [Track.isStop])
  | before item rest _ ih =>
    intro _ hpage b d cursor
    rw [Track.chain_before] at hpage
    obtain ⟨hmark, hrest⟩ := List.forall_mem_cons.mp hpage
    cases hstop : rest.isStop with
    | false =>
      obtain ⟨mark, hsuffix, hglyph⟩ := ih hstop hrest b d (cv.onward d cursor rest item)
      exact ⟨mark, hsuffix.trans (marks_suffix_before item rest), hglyph⟩
    | true =>
      cases rest with
      | stop =>
        cases item <;>
        · rw [Item.before, track]
          exact exists_arrow_of_node _ _ hmark _ _ _ _
      | _ => cases hstop

/-- **A page is drawn as what there is to read on it,** with an arrow head at its end. -/
theorem glyphs_page (cv : Canvas α) {r : Ruler α} {page : Track (Cell α)} (hpage : page.LaidOut r) :
    (cv.page page).filterMap Primitive.glyph?
        = cv.glyphs (page.readings 0) ++ [.arrow .forward] ∧
      (cv.page page).getLast?.bind Primitive.glyph? = some (.arrow .forward) := by
  constructor
  · have hsigns := cv.glyphs_signs page hpage.inside 0 cv.settings.margin.left
    rw [endGlyphs_of_onPage hpage.present hpage.onPage,
      show Direction.onWays 0 = .forward from if_pos Even.zero, ← signs_page,
      List.map_filterMap] at hsigns
    exact hsigns
  · obtain ⟨mark, hlast, hglyph⟩ := exists_last_arrow page hpage.present hpage.onPage cv.brush
      .forward cv.settings.margin.left
    obtain ⟨before, hmarks⟩ := hlast.trans (List.suffix_cons _ _)
    rw [Canvas.page, ← hmarks, List.getLast?_concat]
    exact hglyph

end Canvas

/-! ## 3. Pages of compiled graphs -/

namespace Wrapped

variable {g₀ g : Graph} {t₀ : Track NodeId} {w : NodeId → Option NodeId}

/-- The nodes that were compiled keep their names. -/
theorem names_eq (hbare : g₀.Bare t₀) (h : Wrapped g₀ t₀ g w) (symbols : SymbolTable) :
    t₀.map (fun id => (g.spotAt id).node.name symbols)
      = t₀.map fun id => (g₀.spotAt id).node.name symbols := by
  refine Track.map_congr t₀ fun id hid => ?_
  obtain ⟨node, hn⟩ := hbare.node_of_mem hid
  rw [h.spotAt_eq hn, Graph.spotAt_node hn, Node.name, Node.name, Node.symbol_before]

/-- **What there is to read on a page** is what there is to read in the graph that was compiled. -/
theorem readings_arranged (hbare : g₀.Bare t₀) (h : Wrapped g₀ t₀ g w) (r : Ruler α)
    (symbols : SymbolTable) (ways : Nat) :
    (((g.arranged r).1.map fun c => c.node.name symbols)).readings ways
      = (g₀.levels.map fun spot => spot.node.name symbols).readings ways := by
  obtain ⟨w', h'⟩ := h.exists_breakRows hbare r
  have hspots := g.spots_arranged r
  have hpage : (g.arranged r).1.map (fun c => c.node.name symbols)
      = ((g.arranged r).1.map Cell.toSpot).map fun spot => spot.node.name symbols :=
    .symm (Track.map_map Cell.toSpot _ _)
  rw [hpage, hspots, h'.track_eq hbare, hbare.similar.levels_eq, hbare.similar.track_eq,
    Track.map_map, Track.map_map]
  have hnames := congrArg (Track.readings ways) (h'.names_eq hbare symbols)
  rw [Track.readings_map, Track.readings_map] at hnames
  rw [Track.readings_map, Track.readings_map, Track.readings_withWraps]
  exact hnames

end Wrapped

/-! ## 4. Diagrams -/

namespace Grammar

/-- **Every symbol is drawn once, in reading order, pointing the right way.**  In a diagram of a
grammar, whatever was added to it, the boxes, labels and arrow heads are those of the symbols of the
production in reading order, and then one more arrow head, with which the drawing ends.  All symbols
of the graph are there, and each of them once.  How labels are shaped and colors are read does not
matter.

The order in which the marks are drawn is part of the statement, for boxes, labels and arrow heads;
lines between them are left out.  A symbol that is reached over the way back of a loop points
backwards, and one inside two such loops forward again: hence the parity. -/
theorem render_reads [Shaping α] [Color.Notation] {g : Grammar} (hg : g.Reached)
    {settings : Settings α} {name : String} {d : Diagram α} (h : g.render settings name = .ok d) :
    ∃ graph, g.graph? name = some graph ∧
      d.marks.filterMap Primitive.glyph? = (graph.levels.readings 0).flatMap
        (fun (spot, ways) => [.box, .label (spot.node.name g.symbols),
          .arrow (if Even ways then .forward else .reverse)]) ++ [.arrow .forward] ∧
      d.marks.getLast?.bind Primitive.glyph? = some (.arrow .forward) ∧
      ((graph.levels.readings 0).map Prod.fst).Perm
        (((List.range graph.nodes.size).map graph.spotAt).filter (·.node.kind.isSymbol)) := by
  obtain ⟨chart, graph, -, hgraph, hlayout, hmarks⟩ := render_ok h
  obtain ⟨registry, collapsing, p, hcompile⟩ := hg.isCompiled_of_graph? hgraph
  obtain ⟨t, hbare⟩ := Build.bare_of_compile hcompile
  have hwrapped := Wrapped.refl graph t
  rw [(Graph.layout_ok hlayout).1] at hmarks
  have hpage := hwrapped.laidOut hbare (.ofSymbols settings.layout g.symbols)
  have hreadings := hwrapped.readings_arranged hbare (.ofSymbols settings.layout g.symbols)
    g.symbols 0
  generalize (graph.arranged (.ofSymbols settings.layout g.symbols)).1 = page at *
  obtain ⟨hglyphs, hlast⟩ := (g.canvas settings.layout chart).glyphs_page hpage
  rw [hmarks]
  refine ⟨graph, hgraph, hglyphs.trans (congrArg (· ++ _) ?_), hlast, ?_⟩
  · rw [Track.readings_map, Track.readings_map] at hreadings
    have hsame := congrArg (List.flatMap fun (label, ways) => Glyph.ofReading label ways) hreadings
    rw [List.flatMap_map, List.flatMap_map] at hsame
    exact hsame
  · have hproper := hwrapped.items_proper hbare
    rw [hbare.similar.levels_eq, Track.map_fst_readings graph.track hproper, hbare.similar.track_eq,
      Track.toList_map]
    exact (hbare.perm_range.map graph.spotAt).filter _

/-- The grammar of the production `p = { "a" | "b" }`. -/
def repeatedChoice : Grammar := (Grammar.add {} true Railroad.repeatedChoice).2

/-- The words are on the way back of the loop. -/
theorem render_reads_repeatedChoice : repeatedChoice.Reached ∧
    ∃ d : Diagram Rat, repeatedChoice.render .fixed "p" = .ok d ∧
      d.marks.filterMap Primitive.glyph? = [.box, .label "a", .arrow .reverse,
        .box, .label "b", .arrow .reverse, .arrow .forward] := by
  have hreached : repeatedChoice.Reached := Reached.empty.add true Railroad.repeatedChoice
  have hrender : (repeatedChoice.render (α := Rat) .fixed "p").toOption.isSome = true := by
    decide +kernel
  have hreads : (repeatedChoice.graph? "p").map (fun graph => (graph.levels.readings 0).flatMap
      fun (spot, ways) => [Glyph.box, .label (spot.node.name repeatedChoice.symbols),
        .arrow (if Even ways then .forward else .reverse)]) = some [.box, .label "a",
          .arrow .reverse, .box, .label "b", .arrow .reverse] := by
    decide +kernel
  cases hd : repeatedChoice.render (α := Rat) .fixed "p" with
  | error e => rw [hd] at hrender; cases hrender
  | ok d =>
    obtain ⟨graph, hgraph, hglyphs, -⟩ := render_reads hreached hd
    rw [hgraph] at hreads
    exact ⟨hreached, d, rfl, hglyphs.trans (congrArg (· ++ _) (Option.some.inj hreads))⟩

end Grammar

end Railroad
