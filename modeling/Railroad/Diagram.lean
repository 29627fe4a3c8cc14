/-
# From a grammar to diagrams

This is what the library is used for: `Grammar.ofSource` reads and compiles a grammar,
`Grammar.render` draws one of its productions, and `Grammar.svg` and `Grammar.stackedSvg` write
drawings as SVG documents.

Of several things wrong the first counts: the measures, then the colors, then the name, and last
the layout.  Drawing changes nothing in the grammar: a graph is laid out anew for each drawing, and
the wraps that this puts into it are not kept.

Three things are asked of the surroundings, and what is proved about drawings holds whatever they
answer: how labels are shaped (`Shaping`), how colors are read and written (`Color.Notation`), and
how XML is written (`Xml.Notation`).
-/
import Railroad.Drawing.Render
import Railroad.Drawing.Svg
import Railroad.Ebnf.Parser
import Railroad.Failure
import Railroad.Grammar

namespace Railroad

open Scalar

variable {α : Type} [Scalar α]

/-- **A drawn production:** the layout together with the marks that were made of it.  The graph is
the one with the wraps of its layout. -/
structure Diagram (α : Type) where
  name : String
  graph : Graph
  layout : Layout α
  marks : List (Primitive α)

/-- The size of a diagram's page. -/
def Diagram.size (d : Diagram α) : Size α := d.layout.size

namespace Grammar

/-- **Reads and compiles a grammar,** `parse`.  A text that is no grammar fails with its
diagnostics, a production without a graph with what is wrong with it.  Nothing is left of the
productions before one that has no graph. -/
def ofSource (collapsing : Bool) (source : String) : Except (Failure α) Grammar :=
  match Ebnf.parse source with
  | .error e => .error (.parse e source)
  | .ok productions => (ofProductions collapsing productions).mapError .build

/-- The graph of a name, which has to be defined. -/
def graph (g : Grammar) (name : String) : Except (Failure α) Graph :=
  match g.graph? name with
  | some graph => .ok graph
  | none => .error (.lookup name)

/-- The look of a chart, `chart_style`, with the colors of the settings read. -/
def chart [Color.Notation] (settings : Settings α) : Except (Failure α) (ChartStyle α) :=
  settings.style.resolve.mapError fun e => .config (.color e)

/-- The name of the color that frames around nodes of a kind have. -/
def frameColorName : NodeKind → String
  | .terminal | .nonterminal => "gray"
  | .epsilon => "magenta"
  | .optional => "orange"
  | .iteration => "blue"
  | .rerun => "green"
  | .alternative => "red"
  | .wrap => "purple"

/-- The canvas for the diagrams of a grammar. -/
def canvas [Color.Notation] (g : Grammar) (settings : LayoutSettings α) (chart : ChartStyle α) :
    Canvas α where
  settings := settings
  chart := chart
  label node := node.name g.symbols
  frameColor kind := Color.ofName (frameColorName kind)

/-- **Draws a production,** `render`: checks the measures, reads the colors, looks the name up, lays
the graph out and draws it.  The grammar keeps the graph that it has: wraps are put into a copy of
it. -/
def render [Shaping α] [Color.Notation] (g : Grammar) (settings : Settings α) (name : String) :
    Except (Failure α) (Diagram α) := do
  settings.layout.validate.mapError fun e => .config (.invalid e)
  let chart ← Grammar.chart settings
  let graph ← g.graph name
  let (layout, graph) := graph.layout (.ofSymbols settings.layout g.symbols)
  let layout ← layout.mapError .geometry
  return { name, graph, layout, marks := (g.canvas settings.layout chart).page layout.track }

/-- **A production as an SVG document,** `render_svg`, as large as its page.  The document has no
room around the page. -/
def svg [Shaping Float32] [Color.Notation] [Xml.Notation] (g : Grammar) (settings : Settings Float32)
    (name : String) : Except (Failure Float32) String := do
  let chart ← Grammar.chart settings
  let diagram ← g.render settings name
  return Xml.Notation.write (svgDocument chart.background diagram.size diagram.marks)

/-- Draws productions one below the other, the first of them below a page of the size `above`: the size
of all together, and the marks. -/
def stackFrom [Shaping α] [Color.Notation] (g : Grammar) (settings : Settings α) (above : Size α) :
    List String → Except (Failure α) (Size α × List (Primitive α))
  | [] => .ok (above, [])
  | name :: names => do
    let diagram ← g.render settings name
    let moved := diagram.marks.map (·.translate 0.0 above.height)
    let size := ⟨larger above.width diagram.size.width, above.height + diagram.size.height⟩
    let (total, marks) ← g.stackFrom settings size names
    return (total, moved ++ marks)

/-- **Productions one below the other as one SVG document,** `render_stacked_svg`.  There must be at
least one.  If one of them cannot be drawn there is no document, and the failure is that of the
first such. -/
def stackedSvg [Shaping Float32] [Color.Notation] [Xml.Notation] (g : Grammar)
    (settings : Settings Float32) (names : List String) : Except (Failure Float32) String := do
  if names.isEmpty then throw .nothingToStack
  let chart ← Grammar.chart settings
  let (size, marks) ← g.stackFrom settings Size.zero names
  return Xml.Notation.write (svgDocument chart.background size marks)

end Grammar

end Railroad
