/-
# Closed graphs

A graph is closed when nothing in it is left over or left open: every node is reached exactly
once, every nested level ends with a link that escapes, the top level ends with one that leads
nowhere and does not escape, every symbol node has a symbol and every composite node a level.

`Graph.checkClosed` finds the first violation on a walk along the links.  There are three kinds of
places that a walk comes by, and one function for each: the nodes of a level (`check_level`), what a
node owns (`check_children`), and the branches of an alternation below its head.  All three mark the
nodes they meet and stop at a marked one, and so a walk takes no more than three steps for each node
and a few at its end; that bounds the `fuel` it is given.  The bound is not taken on trust:
`Railroad.Proofs.Graph.Closed` shows that the check answers what the walk without any bound answers,
of every graph whose links stay inside the array.

What a violation is called is part of the answer.  A graph with several has the one that the walk
meets first, and nodes that no link leads to are looked for last.
-/
import Railroad.Graph.Basic

namespace Railroad

/-- What can be wrong at a node.  `branchKind` and `branchLevel` are about a branch below the head
of an alternation; the head itself is a composite node like any other. -/
inductive Defect where
  | visitedTwice | branchVisitedTwice | unreachable
  | nestedEnd | topEscapes
  | noSymbol | noLevel | branchKind | branchLevel | dangling
deriving Repr, DecidableEq

/-- A defect in words. -/
def Defect.text : Defect → String
  | .visitedTwice => "node is visited twice"
  | .branchVisitedTwice => "branch is visited twice"
  | .unreachable => "node is unreachable"
  | .nestedEnd => "nested level ends without escaping"
  | .topEscapes => "top level link escapes"
  | .noSymbol => "symbol node without symbol"
  | .noLevel => "composite node without sub level"
  | .branchKind => "branch is not an alternative"
  | .branchLevel => "branch without sub level"
  | .dangling => "link leads out of the graph"

/-- A node that keeps a graph from being closed, told by its serial number and kind so that the
message means something without the graph. -/
structure Malformed where
  serial : Nat
  kind : NodeKind
  defect : Defect
deriving Repr, DecidableEq

namespace Graph

/-- The defect of the node at a place.  A place outside the graph is named by its number. -/
def malformed (g : Graph) (id : NodeId) (defect : Defect) : Malformed :=
  match g.nodes[id]? with
  | some node => ⟨node.serial, node.kind, defect⟩
  | none => ⟨id, .wrap, defect⟩

mutual

/-- Walks the level that begins at `id`, `check_level`.  The nodes that were visited before go in,
those visited by then come out.  What a node owns is walked before the node that follows it. -/
def checkLevel (g : Graph) (top : Bool) : Nat → NodeId → List NodeId → Except Malformed (List NodeId)
  | 0, id, _ => .error (g.malformed id .visitedTwice)
  | fuel + 1, id, visited =>
    match g.nodes[id]? with
    | none => .error (g.malformed id .dangling)
    | some node =>
      if visited.contains id then .error (g.malformed id .visitedTwice) else
      match checkChildren g fuel id node (id :: visited) with
      | .error e => .error e
      | .ok visited =>
        match node.next, node.escapes with
        | some next, false => checkLevel g top fuel next visited
        | none, false => if top then .ok visited else .error (g.malformed id .nestedEnd)
        | _, true => if top then .error (g.malformed id .topEscapes) else .ok visited

/-- Walks what a node owns, `check_children`: its level, and then what is `between` two runs of a
rerun or the branches below the head of an alternation. -/
def checkChildren (g : Graph) : Nat → NodeId → Node → List NodeId → Except Malformed (List NodeId)
  | 0, id, _, _ => .error (g.malformed id .visitedTwice)
  | fuel + 1, id, node, visited =>
    if node.kind.isSymbol && node.symbol.isNone then .error (g.malformed id .noSymbol)
    else if !node.kind.isComposite then .ok visited
    else match node.sub with
    | none => .error (g.malformed id .noLevel)
    | some sub =>
      match checkLevel g false fuel sub visited with
      | .error e => .error e
      | .ok visited =>
        match node.kind, node.between, node.down with
        | .rerun, some between, _ => checkLevel g false fuel between visited
        | .alternative, _, some down => checkBranches g fuel down visited
        | _, _, _ => .ok visited

/-- Walks the branches of an alternation from `id` down.  A branch has no continuation of its own:
its `next` link is not looked at. -/
def checkBranches (g : Graph) : Nat → NodeId → List NodeId → Except Malformed (List NodeId)
  | 0, id, _ => .error (g.malformed id .branchVisitedTwice)
  | fuel + 1, id, visited =>
    match g.nodes[id]? with
    | none => .error (g.malformed id .dangling)
    | some node =>
      if visited.contains id then .error (g.malformed id .branchVisitedTwice)
      else if node.kind != .alternative then .error (g.malformed id .branchKind)
      else match node.sub with
      | none => .error (g.malformed id .branchLevel)
      | some sub =>
        match checkLevel g false fuel sub (id :: visited) with
        | .error e => .error e
        | .ok visited =>
          match node.down with
          | none => .ok visited
          | some down => checkBranches g fuel down visited

end

/-- **Checks that a graph is closed,** `check_closure`: walks it from its entry, and then looks for
a node that was not visited, in the order of the array.  The bound on the number of calls is enough
for any graph whose links lead to nodes of it (`Graph.checkClosed_sound`). -/
def checkClosed (g : Graph) : Except Malformed Unit :=
  match g.checkLevel true (3 * g.nodes.size + 2) g.entry [] with
  | .error e => .error e
  | .ok visited =>
    match (List.range g.nodes.size).find? fun id => !visited.contains id with
    | some id => .error (g.malformed id .unreachable)
    | none => .ok ()

/-- The graph is closed. -/
def isClosed (g : Graph) : Bool := g.checkClosed.isOk

end Graph

end Railroad
