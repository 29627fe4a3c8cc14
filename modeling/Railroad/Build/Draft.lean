/-
# Graphs under construction

A graph is built from the inside out.  A piece of it that is already there is a *fragment*: the
node it begins with, the last node of its own level (`tail`), and the nodes further inside from
which it can be left as well (`exits`).  Where a fragment leads to is decided when the next one
is put behind it: the tail is linked on the level, every exit by a link that escapes.

There is one operation for each construct, and each does the same three things: it adds the node of
the construct, it leads the open ends of the parts to where they belong, and it says which ends are
open now.  The ends of an option or of a branch stay open, since they lead where the construct
leads; those of a loop are led back to the loop's own node (`close_loop`), and none of them is open
any more.

Symbols, the terminals among them and serial numbers belong to the grammar as a whole
(`Registry`); a `Draft` is these together with the nodes of one graph.
-/
import Railroad.Graph.Basic
import Railroad.Expr.Basic

namespace Railroad.Build

/-- **What the productions of a grammar share:** its symbols, those of them that were used as
terminals, in the order of their first use, and the next serial number.  A serial number is used up
by each node, whether or not its graph is finished. -/
structure Registry where
  symbols : SymbolTable := {}
  terminals : List SymbolId := []
  nextSerial : Nat := 0

namespace Registry

/-- The number of a symbol, which is new if it was not met before. -/
def intern (r : Registry) (kind : SymbolKind) (name : String) : Registry × SymbolId :=
  let (symbols, id) := r.symbols.intern kind name
  ({ r with symbols }, id)

/-- The number of a terminal or nonterminal that a production uses.  A terminal is noted down,
`register_terminal`, when it is first used. -/
def use (r : Registry) (kind : SymbolKind) (name : String) : Registry × SymbolId :=
  let (r, id) := r.intern kind name
  match kind with
  | .nonterminal => (r, id)
  | .terminal =>
    if r.terminals.contains id then (r, id) else ({ r with terminals := r.terminals ++ [id] }, id)

end Registry

/-- **A graph under construction.**  Its nodes refer to each other only; the registry is shared with
the graphs before and after it.  Links may still be open in it; which of them are is known to the
fragments that are made of its nodes, and not to the draft. -/
structure Draft extends Registry where
  nodes : Array Node := #[]

/-- A piece of a graph whose continuation is open.  No node of it is linked to anything outside
it. -/
structure Fragment where
  entry : NodeId
  tail : NodeId
  exits : List NodeId := []

/-- The nodes whose continuation is open, `open_ends`: the tail, and the exits further inside. -/
def Fragment.openEnds (f : Fragment) : List NodeId := f.tail :: f.exits

namespace Draft

/-- A new node with the next serial number, `allocate_serial`.  It comes at the end of the array. -/
def push (d : Draft) (node : Nat → Node) : Draft × NodeId :=
  ({ d with nodes := d.nodes.push (node d.nextSerial), nextSerial := d.nextSerial + 1 },
    d.nodes.size)

/-- Sets the continuation of a node. -/
def link (d : Draft) (id : NodeId) (next : Option NodeId) (escapes : Bool) : Draft :=
  { d with nodes := d.nodes.modify id (·.link next escapes) }

/-- Sets the continuation of several nodes. -/
def linkAll (d : Draft) (ids : List NodeId) (next : Option NodeId) (escapes : Bool) : Draft :=
  ids.foldl (fun d id => d.link id next escapes) d

/-- A fragment of one new node. -/
def single (d : Draft) (node : Nat → Node) : Draft × Fragment :=
  let (d, id) := d.push node
  (d, { entry := id, tail := id })

/-- A symbol node. -/
def symbol (d : Draft) (kind : SymbolKind) (leaf : Leaf) : Draft × Fragment :=
  let (registry, id) := d.toRegistry.use kind leaf.name
  let nodeKind := match kind with
    | .terminal => NodeKind.terminal
    | .nonterminal => NodeKind.nonterminal
  Draft.single { registry with nodes := d.nodes } fun serial =>
    { serial, kind := nodeKind, symbol := some id, style := leaf.style }

/-- The empty word. -/
def epsilon (d : Draft) : Draft × Fragment :=
  d.single fun serial => { serial, kind := .epsilon }

/-- One fragment behind the other, `sequence`: the tail goes on to the second one on the same level,
the exits escape to it. -/
def sequence (d : Draft) (first second : Fragment) : Draft × Fragment :=
  let d := d.link first.tail (some second.entry) false
  (d.linkAll first.exits (some second.entry) true, { second with entry := first.entry })

/-- A fragment as the first branch of an alternation, `first_alternative`.  All its ends become
exits of the alternation, whose tail is the new head. -/
def firstBranch (d : Draft) (branch : Fragment) : Draft × Fragment :=
  let (d, id) := d.push fun serial => { serial, kind := .alternative, sub := some branch.entry }
  (d, { entry := id, tail := id, exits := branch.openEnds })

/-- A fragment as a further branch, `alternative`, below the branch `above`, of the alternation
`group`.  The branch and its ends are added to the exits; the tail of the group stays its head. -/
def branch (d : Draft) (group : Fragment) (above : NodeId) (branch : Fragment) :
    Draft × Fragment × NodeId :=
  let (d, id) := d.push fun serial => { serial, kind := .alternative, sub := some branch.entry }
  ({ d with nodes := d.nodes.modify above fun node => { node with down := some id } },
    { group with exits := group.exits ++ id :: branch.openEnds }, id)

/-- A fragment that may be passed by, `option`.  Its ends become exits. -/
def optional (d : Draft) (inner : Fragment) : Draft × Fragment :=
  let (d, id) := d.push fun serial => { serial, kind := .optional, sub := some inner.entry }
  (d, { entry := id, tail := id, exits := inner.openEnds })

/-- A fragment on a way back, `iteration`.  Its ends lead back to the node of the loop. -/
def iteration (d : Draft) (inner : Fragment) : Draft × Fragment :=
  let (d, id) := d.push fun serial => { serial, kind := .iteration, sub := some inner.entry }
  (d.linkAll inner.openEnds (some id) true, { entry := id, tail := id })

/-- A fragment with a way back, `rerun`, over another one or over nothing.  The ends of both lead
back to the node of the loop. -/
def rerun (d : Draft) (body : Fragment) (between : Option Fragment) : Draft × Fragment :=
  let (d, id) := d.push fun serial =>
    { serial, kind := .rerun, sub := some body.entry, between := between.map (·.entry) }
  let d := d.linkAll body.openEnds (some id) true
  (d.linkAll ((between.map (·.openEnds)).getD []) (some id) true, { entry := id, tail := id })

/-- The finished graph, `finish`: nothing follows its fragment.  The exits escape to nowhere, and
the tail, which no link was set for, leads nowhere on its own level. -/
def finish (d : Draft) (f : Fragment) : Graph :=
  { nodes := (d.linkAll f.exits none true).nodes, entry := f.entry }

end Draft

end Railroad.Build
