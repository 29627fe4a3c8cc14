/-
# Breaking a page into rows

When a page width is set, the top level is broken where it would become wider.  A row that
overflows at some node ends after the next symbol from there on, so that a construct is not torn
from the symbol it leads to; failing that, after the last symbol before; failing that, after its
first node.  No row ends after the last node of the level.

A break is a wrap node in the chain.  Wraps stay in the graph once they are there: a break at a
place that has one already uses it again, and a wrap that is not used breaks nothing.

Where rows end is decided on a list of stops, one for each node of the level that takes room, before
anything is done to the graph (`Stop.breaks`, the loop of `insert_wraps`).  Writing the wraps down
can wait, since sizes do not change while wraps are put in.  In the graph the decision becomes wraps
(`Graph.breakAfterAll`), and in the tree of the page it becomes their heights (`Track.frozenFrom`).

The policy as a property of the rows that come out, rather than as a search for them, is
`Railroad.Proofs.Layout.RowPolicy`.
-/
import Railroad.Layout.Box

namespace Railroad

open Scalar

variable {α : Type} [Scalar α]

/-- **A node that a row may have to end after:** how far it moves the row on, whether it is a
symbol with something behind it, and whether anything is behind it at all. -/
structure Stop (α : Type) where
  id : NodeId
  advance : α
  breakable : Bool
  followed : Bool

namespace Stop

/-- The place of the first node at which the running sum exceeds the limit.  A sum that is not a
number exceeds every limit. -/
def overflow? (limit : α) (sum : α) : List (Stop α) → Option Nat
  | [] => none
  | stop :: stops =>
    let sum := sum + stop.advance
    if le sum limit then (overflow? limit sum stops).map (· + 1) else some 0

/-- The place of the first breakable node from a place on. -/
def breakableFrom? (place : Nat) (stops : List (Stop α)) : Option Nat :=
  ((stops.drop place).findIdx? (·.breakable)).map (· + place)

/-- The place of the last breakable node before a place. -/
def breakableBefore? (place : Nat) (stops : List (Stop α)) : Option Nat :=
  ((stops.take place).reverse.findIdx? (·.breakable)).map fun back => min place stops.length - 1 - back

/-- The place of the first node, up to a place, that is not the last of all. -/
def firstFollowed? (place : Nat) (stops : List (Stop α)) : Option Nat :=
  (stops.dropLast.take (place + 1)).findIdx? (·.followed)

/-- **Where the row at the beginning has to end,** if the level does not fit into it. -/
def rowEnd? (limit : α) (stops : List (Stop α)) : Option Nat := do
  let place ← overflow? limit 0.0 stops
  breakableFrom? place stops <|> breakableBefore? place stops <|> firstFollowed? place stops

/-- **The nodes that rows end after.** -/
def breaks (limit : α) : List (Stop α) → List NodeId
  | [] => []
  | stop :: stops =>
    match rowEnd? limit (stop :: stops) with
    | none => []
    | some place => (((stop :: stops)[place]?).map (·.id)).toList ++ breaks limit (stops.drop place)
termination_by stops => stops.length
decreasing_by simp only [List.length_drop, List.length_cons]; omega

end Stop

namespace Track

/-- The nodes of a level that a row may have to end after. -/
def stops (gap : α) : Track (Cell α) → List (Stop α)
  | .stop => []
  | .wrap _ rest => rest.stops gap
  | .symbol c rest =>
    ⟨c.id, c.extent.width + rest.connector gap, c.node.next.isSome, c.node.next.isSome⟩ :: rest.stops gap
  | .epsilon c rest => plain c :: rest.stops gap
  | .optional c _ rest => plain c :: rest.stops gap
  | .iteration c _ rest => plain c :: rest.stops gap
  | .rerun c _ _ rest => plain c :: rest.stops gap
  | .choice branches rest => plain branches.head :: rest.stops gap
where
  /-- A node that is no symbol. -/
  plain (c : Cell α) : Stop α := ⟨c.id, c.extent.width + 0.0, false, c.node.next.isSome⟩

end Track

namespace Graph

/-- The wrap right behind a node, if there is one.  It may be from an earlier layout. -/
def wrapBehind? (g : Graph) (id : NodeId) : Option NodeId := do
  let next ← (← g.nodes[id]?).next
  if (← g.nodes[next]?).kind == .wrap then some next else none

/-- Puts a new wrap, the node that will be last in the array, between a node and what follows.  No
other link is changed, and the node itself does not escape afterwards. -/
def insertWrap (g : Graph) (id : NodeId) : Graph :=
  let next := (g.nodes[id]?).bind (·.next)
  let wrap : Node := { serial := g.nextSerial, kind := .wrap, next }
  { g with nodes := g.nodes.push wrap }.modify id (·.link (some g.nodes.size) false)

/-- **Lets a row end after a node,** `break_after`: the graph with a wrap there, and the wrap. -/
def breakAfter (g : Graph) (id : NodeId) : Graph × NodeId :=
  match g.wrapBehind? id with
  | some wrap => (g, wrap)
  | none => (g.insertWrap id, g.nodes.size)

/-- Lets rows end after some nodes: the graph with wraps there, and the wraps. -/
def breakAfterAll (g : Graph) : List NodeId → Graph × List NodeId
  | [] => (g, [])
  | id :: ids =>
    let (g, wrap) := g.breakAfter id
    let (g, wraps) := g.breakAfterAll ids
    (g, wrap :: wraps)

end Graph

namespace Track

/-- **Marks the nodes of a page and gives the wraps in use the height of the row they end,**
`freeze_rows`, which makes them break it.  A wrap stays without a height if its row has none; its
row then goes on behind it. -/
def frozenFrom (used : NodeId → Bool) (row : RowExtent α) : Track (Cell α) → Track (Cell α)
  | .stop => .stop
  | .wrap c rest =>
    let c := onPage c
    if used c.id && lt 0.0 row.height then
      .wrap (c.mapBox ({ · with size := ⟨0.0, row.height⟩ })) (rest.frozenFrom used RowExtent.empty)
    else .wrap c (rest.frozenFrom used row)
  | .symbol c rest => .symbol (onPage c) (rest.frozenFrom used (higher row c))
  | .epsilon c rest => .epsilon (onPage c) (rest.frozenFrom used (higher row c))
  | .optional c body rest => .optional (onPage c) body (rest.frozenFrom used (higher row c))
  | .iteration c body rest => .iteration (onPage c) body (rest.frozenFrom used (higher row c))
  | .rerun c body between rest =>
    .rerun (onPage c) body between (rest.frozenFrom used (higher row c))
  | .choice branches rest =>
    .choice (branches.mapHead onPage) (rest.frozenFrom used (higher row branches.head))
where
  /-- The cell, marked as one of the page. -/
  onPage (c : Cell α) : Cell α := c.mapBox ({ · with onPage := true })
  /-- The row with the height of one more cell. -/
  higher (row : RowExtent α) (c : Cell α) : RowExtent α := row.extend 0.0 c.box.ascent c.descent

/-- The page with its rows set; before the first node the row is empty. -/
def frozen (used : NodeId → Bool) (t : Track (Cell α)) : Track (Cell α) :=
  t.frozenFrom used RowExtent.empty

end Track

end Railroad
