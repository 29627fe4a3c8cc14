/-
# Diagram graphs

A compiled production is a graph of nodes that are kept in one array and refer to each other by
their place in it.  Four links leave a node:

* `next` leads to what follows, on the same level or, if the link `escapes`, on an outer one;
* `sub` leads into the level that a composite node owns;
* `between` leads into the level that a rerun goes back over;
* `down` leads from one branch of an alternation to the next.

A *level* is the chain along `next` up to the first link that escapes.  The last node of a nested
level escapes to where the owner of the level leads, or for the way back of a loop to the loop
itself; the last node of the top level leads nowhere and does not escape.  An alternation is the
chain of its branches along `down`.  Only the first of them, its *head*, has a place in the level
around it, and stands for the alternation there.

Nothing in the types keeps a link inside the array or a level from leading back into itself.  That
the graphs which the compiler makes are in order is proved of them (`Railroad.Proofs.Build`);
whether any given graph is can be checked (`Railroad.Graph.Closure`).

A graph has no boxes.  What a layout finds out about a node is kept in the layout, not in the node
(`Railroad.Layout.Box`); all that a layout leaves behind in a graph are the wraps that it puts in.
-/
import Railroad.Style
import Railroad.Symbol

namespace Railroad

/-- What a node stands for.  The two symbol kinds carry a symbol, the composite kinds own a
level. -/
inductive NodeKind where
  | terminal | nonterminal
  /-- The empty word. -/
  | epsilon
  /-- Its level, or nothing. -/
  | optional
  /-- Its level any number of times, drawn as a way back. -/
  | iteration
  /-- Its level at least once, each time but the first after the level `between`. -/
  | rerun
  /-- One branch of an alternation, the head or one further down. -/
  | alternative
  /-- A place where a row may end.  The compiler makes none; they come with layouts. -/
  | wrap
deriving Repr, DecidableEq

namespace NodeKind

/-- A terminal or a nonterminal. -/
def isSymbol : NodeKind → Bool
  | .terminal | .nonterminal => true
  | _ => false

/-- It owns a level. -/
def isComposite : NodeKind → Bool
  | .optional | .iteration | .rerun | .alternative => true
  | _ => false

/-- The short name of a kind, as it stands in messages. -/
def text : NodeKind → String
  | .terminal => "TERM"
  | .nonterminal => "NONTERM"
  | .epsilon => "EPS"
  | .optional => "OPT"
  | .iteration => "ITER"
  | .rerun => "RERUN"
  | .alternative => "ALT"
  | .wrap => "WRAP"

end NodeKind

/-- The place of a node in its graph.  Nodes are only ever added at the end of the array, so a place
stays what it is. -/
abbrev NodeId := Nat

/-- **A node.**  Its serial number tells it from the nodes of other graphs of the same grammar; the
wraps that a layout adds count on from the largest number of their own graph.  Which of the links a
node may have depends on its kind, and is not checked when it is made: that is for
`Graph.checkClosed`. -/
structure Node where
  serial : Nat
  kind : NodeKind
  symbol : Option SymbolId := none
  style : NodeStyle := {}
  next : Option NodeId := none
  escapes : Bool := false
  down : Option NodeId := none
  sub : Option NodeId := none
  between : Option NodeId := none

/-- The node with another continuation.  Target and escape are always set together. -/
def Node.link (node : Node) (next : Option NodeId) (escapes : Bool) : Node :=
  { node with next, escapes }

/-- **A graph** and the node its top level begins with.  Links are places in the array, so a graph
can be copied and added to without touching them. -/
structure Graph where
  nodes : Array Node
  entry : NodeId

/-- A node together with its place.  Two nodes of a graph may be equal in all their fields and still
be two. -/
structure Spot where
  id : NodeId
  node : Node

namespace Graph

/-- The node at a place. -/
def spot? (g : Graph) (id : NodeId) : Option Spot := g.nodes[id]?.map (Spot.mk id)

/-- A serial number that no node of the graph has, `next_serial`: one more than the largest. -/
def nextSerial (g : Graph) : Nat := g.nodes.foldl (fun top node => max top (node.serial + 1)) 0

/-- Changes the node at a place.  Where there is none nothing happens. -/
def modify (g : Graph) (id : NodeId) (f : Node → Node) : Graph :=
  { g with nodes := g.nodes.modify id f }

end Graph

end Railroad
