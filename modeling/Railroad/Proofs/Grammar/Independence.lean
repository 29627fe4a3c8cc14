/-
# A diagram shows its own production

What is drawn for a name depends on its last definition only.  Other productions, earlier definitions
and failed ones change the numbers that symbols and nodes are given, and these are not seen: not in
the marks, not in the boxes, not in the text of the graph, and in an error only as the serial
number of the node it is about (`Defined.rendering_eq`).

Two grammars in which a name was last defined alike hold two graphs for it that were compiled with
different tables.  These graphs are alike up to numbers (`compile_alike`), layouts of alike graphs
are the same up to numbers (`Railroad.Proofs.Layout.Renumbered`), and drawing looks up the name of
each symbol in the table of its own grammar (`Railroad.Proofs.Drawing.Renumbered`).  The theorem
puts these together and has nothing of its own but the order in which `Grammar.render` does things.

Labels are measured by a ruler that knows the text of a label and no number, so nothing has to be
assumed about it; the same holds for how colors are written.  `Failure.unnumbered` takes the serial
number out of a geometry error, since that number is the one thing in an error that does depend on
what else was compiled.
-/
import Railroad.Proofs.Drawing.Renumbered
import Railroad.Proofs.Grammar.Definitions
import Railroad.Proofs.Layout.Integrity

namespace Railroad

open Build

variable {α : Type} [Scalar α]

/-! ## 1. What is seen -/

/-- **What is seen of a node:** all but its serial number, and the name of its symbol for the
number.  The place of the node stays, since links and wraps are told by it. -/
def Cell.seen (symbols : SymbolTable) (c : Cell α) : Cell α × Option String :=
  ({ c with node := { c.node with serial := 0, symbol := none } }, c.node.symbol.bind symbols.name?)

/-- **What a diagram shows:** its name, the text of its graph, the nodes with their boxes, the rows,
the size of the page, and the marks.  Numbers of symbols and of nodes are the only things that are
left out. -/
structure Appearance (α : Type) where
  name : String
  text : String
  page : Track (Cell α × Option String)
  rows : List (RowExtent α)
  content : Size α
  size : Size α
  marks : List (Primitive α)

/-- What a diagram shows, with the names of a table. -/
def Diagram.appearance (symbols : SymbolTable) (d : Diagram α) : Appearance α where
  name := d.name
  text := d.graph.text symbols
  page := d.layout.track.map (·.seen symbols)
  rows := d.layout.rows
  content := d.layout.content
  size := d.layout.size
  marks := d.marks

/-- A failure without the serial number in it, if it is a geometry error. -/
def Failure.unnumbered : Failure α → Failure α
  | .geometry e => .geometry e.unnumbered
  | e => e

namespace Grammar

/-- What is seen of a diagram, or else what is wrong. -/
def outcome (symbols : SymbolTable) : Except (Failure α) (Diagram α) → Except (Failure α) (Appearance α)
  | .ok d => .ok (d.appearance symbols)
  | .error e => .error e.unnumbered

/-- **What comes of drawing a name.** -/
def rendering [Shaping α] [Color.Notation] (g : Grammar) (settings : Settings α) (name : String) :
    Except (Failure α) (Appearance α) := outcome g.symbols (g.render settings name)

omit [Scalar α] in
theorem outcome_error (symbols : SymbolTable) (e : Failure α) :
    outcome symbols (.error e) = .error e.unnumbered := rfl

omit [Scalar α] in
theorem outcome_ok (symbols : SymbolTable) (d : Diagram α) :
    outcome symbols (.ok d) = .ok (d.appearance symbols) := rfl

/-! ## 2. Names in place of numbers -/

section

variable {σ σ' : SymbolId → SymbolId} {t t' other : SymbolTable}

omit [Scalar α] in
theorem seen_renumber (h : t.Agrees σ other) (c : Cell α) :
    (c.renumber σ).seen other = c.seen t := by
  have hname : (c.node.symbol.map σ).bind other.name? = c.node.symbol.bind t.name? := by
    cases c.node.symbol with
    | none => rfl
    | some id => exact h id
  unfold Cell.seen
  rw [← hname]
  rfl

omit [Scalar α] in
theorem page_seen (h : t.Agrees σ other) (page : Track (Cell α)) :
    (page.map (·.renumber σ)).map (·.seen other) = page.map (·.seen t) := by
  rw [Track.map_map]
  exact Track.map_congr page fun c _ => seen_renumber h c

theorem text_renumber (h : t.Agrees σ other) (g : Graph) :
    (g.renumber σ).text other = g.text t := by
  unfold Graph.text Track.text
  rw [Graph.track_renumber, Track.texts_map]
  simp only [Spot.node_renumber, Node.text_renumber h]

end

/-! ## 3. Drawing alike graphs -/

section Drawing

variable [Shaping α] [Color.Notation]

/-- The last part of drawing a name: its graph is laid out and drawn. -/
def drawn (g : Grammar) (settings : Settings α) (chart : ChartStyle α) (name : String)
    (graph : Graph) : Except (Failure α) (Diagram α) :=
  let (layout, graph) := graph.layout (.ofSymbols settings.layout g.symbols)
  match layout with
  | .error e => .error (.geometry e)
  | .ok layout =>
    .ok { name, graph, layout, marks := (g.canvas settings.layout chart).page layout.track }

/-- **The order of drawing:** settings are looked at before the name, and say the same of every
grammar. -/
theorem render_eq (g : Grammar) (settings : Settings α) (name : String) :
    g.render settings name =
      match settings.layout.validate, Grammar.chart settings with
      | .error e, _ => .error (.config (.invalid e))
      | .ok _, .error e => .error e
      | .ok _, .ok chart => g.graph name >>= g.drawn settings chart name := by
  unfold render
  cases settings.layout.validate with
  | error e => rfl
  | ok _ =>
    cases Grammar.chart settings with
    | error e => rfl
    | ok chart =>
      refine congrArg (g.graph name >>= ·) (funext fun graph => ?_)
      unfold drawn
      cases graph.layout (.ofSymbols settings.layout g.symbols) with
      | mk layout graph => cases layout <;> rfl

section

variable {g g' : Grammar} {σ σ' : SymbolId → SymbolId} {other : SymbolTable} {graph graph' : Graph}
  (hsymbols : g.symbols.Agrees σ other) (hsymbols' : g'.symbols.Agrees σ' other)

include hsymbols hsymbols'

omit [Shaping α] in
/-- Diagrams that differ in the numbers only look the same. -/
theorem appearance_eq (halike : graph.Alike σ σ' graph') {l l' : Layout α}
    (hlayout : l.renumber σ = l'.renumber σ') (settings : LayoutSettings α) (chart : ChartStyle α)
    (name : String) :
    Diagram.appearance g.symbols ⟨name, graph, l, (g.canvas settings chart).page l.track⟩
      = Diagram.appearance g'.symbols ⟨name, graph', l', (g'.canvas settings chart).page l'.track⟩ := by
  let cv : Canvas α := ⟨settings, chart, Node.name other, (g.canvas settings chart).frameColor⟩
  have hcanvas : (g.canvas settings chart).Agrees σ cv :=
    ⟨rfl, rfl, rfl, Node.name_renumber hsymbols⟩
  have hcanvas' : (g'.canvas settings chart).Agrees σ' cv :=
    ⟨rfl, rfl, rfl, Node.name_renumber hsymbols'⟩
  simp only [Layout.renumber, Layout.mk.injEq] at hlayout
  obtain ⟨htrack, hrows, hcontent, hsize⟩ := hlayout
  have htext : graph.text g.symbols = graph'.text g'.symbols := by
    rw [← text_renumber hsymbols, halike, text_renumber hsymbols']
  have hpage : l.track.map (·.seen g.symbols) = l'.track.map (·.seen g'.symbols) := by
    rw [← page_seen hsymbols, htrack, page_seen hsymbols']
  have hmarks : (g.canvas settings chart).page l.track = (g'.canvas settings chart).page l'.track := by
    rw [← Canvas.page_renumber hcanvas, htrack, Canvas.page_renumber hcanvas']
  unfold Diagram.appearance
  rw [htext, hpage, hmarks, hrows, hcontent, hsize]

/-- **Alike graphs make the same drawing,** or fail in the same way. -/
theorem drawn_alike (halike : graph.Alike σ σ' graph') (settings : Settings α) (chart : ChartStyle α)
    (name : String) : outcome g.symbols (g.drawn settings chart name graph)
      = outcome g'.symbols (g'.drawn settings chart name graph') := by
  let r := Ruler.ofSymbols settings.layout g.symbols
  let r' := Ruler.ofSymbols settings.layout g'.symbols
  have hr : r.Agrees σ (.ofSymbols settings.layout other) := Ruler.agrees_ofSymbols σ hsymbols
  have hr' : r'.Agrees σ' (.ofSymbols settings.layout other) := Ruler.agrees_ofSymbols σ' hsymbols'
  obtain ⟨hgraphs, hlayouts⟩ := halike.layout hr hr'
  unfold drawn
  simp only
  cases hl : (graph.layout r).1 with
  | error e =>
    cases hl' : (graph'.layout r').1 with
    | error e' =>
      rw [hl, hl'] at hlayouts
      have herrors : e.unnumbered = e'.unnumbered := Except.error.inj hlayouts
      rw [outcome_error, outcome_error, Failure.unnumbered, Failure.unnumbered, herrors]
    | ok l' =>
      rw [hl, hl'] at hlayouts
      cases hlayouts
  | ok l =>
    cases hl' : (graph'.layout r').1 with
    | error e' =>
      rw [hl, hl'] at hlayouts
      cases hlayouts
    | ok l' =>
      rw [hl, hl'] at hlayouts
      rw [outcome_ok, outcome_ok]
      exact congrArg Except.ok
        (appearance_eq hsymbols hsymbols' hgraphs (Except.ok.inj hlayouts) settings.layout chart name)

end

/-- **A diagram shows its own production.**  Two grammars in which a name was last defined in the
same way make the same drawing for it, whatever else was added to them, or fail in the same way, for
any shaping of labels and any notation of colors.

The settings are the same on both sides but otherwise any; a failure may come from the settings,
from the name or from a box, and is compared as well. -/
theorem Defined.rendering_eq {name : String} {last : Option (Bool × Expr)} {g g' : Grammar}
    (h : Defined name last g) (h' : Defined name last g') (settings : Settings α) :
    g.rendering settings name = g'.rendering settings name := by
  unfold rendering
  rw [render_eq, render_eq]
  split
  case h_1 => rw [outcome_error, outcome_error]
  case h_2 => rw [outcome_error, outcome_error]
  case h_3 chart _ _ =>
    cases last with
    | none =>
      have hnone : g.graph? name = none := h.holds
      have hnone' : g'.graph? name = none := h'.holds
      unfold Grammar.graph
      rw [hnone, hnone']
      show outcome g.symbols (.error _) = outcome g'.symbols (.error _)
      rw [outcome_error, outcome_error]
    | some definition =>
      obtain ⟨r, s, graph, hcompile, hprefix, hgraph⟩ := h.holds
      obtain ⟨r', s', graph', hcompile', hprefix', hgraph'⟩ := h'.holds
      let other : SymbolTable := g.symbols.followedBy g'.symbols
      have hsymbols : g.symbols.Agrees (g.symbols.into other) other :=
        SymbolTable.name?_into (List.subset_append_left _ _)
      have hsymbols' : g'.symbols.Agrees (g'.symbols.into other) other :=
        SymbolTable.name?_into (List.subset_append_right _ _)
      unfold Grammar.graph
      rw [hgraph, hgraph']
      exact drawn_alike hsymbols hsymbols'
        (compile_alike rfl hcompile hcompile' hprefix hprefix' other) settings chart name

end Drawing

/-- The grammar of the production `p = "a" "b"`. -/
def wordsOnly : Grammar := (Grammar.add {} true twoWords).2

/-- The same production after `q = "b"` and after a definition of `p` that has no graph. -/
def wordsLast : Grammar :=
  ((Grammar.add {} false ⟨"q", .literal ⟨"b", {}⟩⟩).2.add true ⟨"p", .sequence []⟩).2.add true twoWords |>.2

/-- The numbers in a graph. -/
def numbers (graph : Graph) : Array (Nat × Option SymbolId) :=
  graph.nodes.map fun node => (node.serial, node.symbol)

/-- All numbers differ, and the diagrams look the same. -/
theorem Defined.rendering_eq_twoWords :
    Defined "p" (some (true, twoWords.expr)) wordsOnly ∧
    Defined "p" (some (true, twoWords.expr)) wordsLast ∧
    (wordsOnly.graph? "p").map numbers = some #[(0, some 1), (1, some 2)] ∧
    (wordsLast.graph? "p").map numbers = some #[(1, some 3), (2, some 1)] ∧
    ∃ seen, wordsOnly.rendering (α := Float32) .fixed "p" = .ok seen ∧
      wordsLast.rendering (α := Float32) .fixed "p" = .ok seen := by
  have hadded (g : Grammar) (hok : (g.add true twoWords).1.isOk = true) {last} (h : Defined "p" last g) :
      Defined "p" (some (true, twoWords.expr)) (g.add true twoWords).2 := by
    have hnext := h.add true twoWords
    rwa [if_pos ⟨rfl, hok⟩] at hnext
  have hfirst : Defined "p" (some (true, twoWords.expr)) wordsOnly :=
    hadded {} (by decide +kernel) .empty
  have hsecond : Defined "p" (some (true, twoWords.expr)) wordsLast :=
    hadded _ (by decide +kernel) ((Defined.empty.add false _).add true _)
  have hdrawn : (wordsOnly.rendering (α := Float32) .fixed "p").isOk = true := by
    decide +kernel
  refine ⟨hfirst, hsecond, by decide +kernel, by decide +kernel, ?_⟩
  cases hseen : wordsOnly.rendering (α := Float32) .fixed "p" with
  | error e =>
    rw [hseen] at hdrawn
    cases hdrawn
  | ok seen => exact ⟨seen, rfl, (Defined.rendering_eq hfirst hsecond .fixed).symm.trans hseen⟩

end Grammar

end Railroad
