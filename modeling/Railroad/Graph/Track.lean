/-
# A graph read as a tree

Whoever lays out, draws or prints a graph walks it in one way: along each level, into the levels
that a node owns, and down the branches of an alternation.  `Track` is the tree of that walk.  It
has the nodes of one level in a row, each with something attached (`β`: the node itself when the
graph has just been read, its box once it is laid out), and `Branches` the branches of one
alternation.  The head of an alternation is its own first branch.

With the tree at hand, a pass over a graph is a function by recursion on constructors.  Sizing,
placing and drawing all have this form, one equation for each kind of node, and an induction over
the tree follows them case by case; nothing in them has to be said about links.

`Graph.trackFrom` reads the tree off the links.  No path through the links of a closed graph comes
by a node twice, and reading a node takes two steps at most, so it looks twice as deep as the graph
has nodes.  That this is deep enough is proved in `Railroad.Proofs.Graph.Traced`: a deeper look sees
the same tree.
-/
import Railroad.Graph.Basic

namespace Railroad

mutual

/-- **A level, node by node.**  Every constructor but `stop` has what follows on the same level as
its last argument. -/
inductive Track (β : Type) where
  | stop
  | symbol (b : β) (rest : Track β)
  | epsilon (b : β) (rest : Track β)
  | wrap (b : β) (rest : Track β)
  | optional (b : β) (body : Track β) (rest : Track β)
  | iteration (b : β) (body : Track β) (rest : Track β)
  /-- `between` is empty when nothing stands between two runs of the body. -/
  | rerun (b : β) (body between : Track β) (rest : Track β)
  | choice (branches : Branches β) (rest : Track β)

/-- **The branches of an alternation,** from the head down.  There is at least one, which is the
head of the alternation. -/
inductive Branches (β : Type) where
  | last (b : β) (body : Track β)
  | more (b : β) (body : Track β) (others : Branches β)

end

namespace Branches

variable {β : Type}

/-- What is attached to the first branch, and so to the alternation as a whole. -/
def head : Branches β → β
  | .last b _ => b
  | .more b _ _ => b

/-- What is attached to the last branch. -/
def lastMark : Branches β → β
  | .last b _ => b
  | .more _ _ others => others.lastMark

/-- What is attached to the branches themselves. -/
def marks : Branches β → List β
  | .last b _ => [b]
  | .more b _ others => b :: others.marks

/-- Changes what is attached to the branches themselves. -/
def mapMarks (f : β → β) : Branches β → Branches β
  | .last b body => .last (f b) body
  | .more b body others => .more (f b) body (others.mapMarks f)

/-- Changes what is attached to the first branch. -/
def mapHead (f : β → β) : Branches β → Branches β
  | .last b body => .last (f b) body
  | .more b body others => .more (f b) body others

end Branches

namespace Track

variable {β : Type}

instance : Inhabited (Track β) := ⟨.stop⟩

/-- Nothing follows. -/
def isStop : Track β → Bool
  | .stop => true
  | _ => false

/-- What is attached to the first node. -/
def first? : Track β → Option β
  | .stop => none
  | .symbol b _ => some b
  | .epsilon b _ => some b
  | .wrap b _ => some b
  | .optional b _ _ => some b
  | .iteration b _ _ => some b
  | .rerun b _ _ _ => some b
  | .choice branches _ => some branches.head

/-- What is attached to the nodes of this level, in order.  An alternation counts as one node here,
by its head. -/
def chain : Track β → List β
  | .stop => []
  | .symbol b rest => b :: rest.chain
  | .epsilon b rest => b :: rest.chain
  | .wrap b rest => b :: rest.chain
  | .optional b _ rest => b :: rest.chain
  | .iteration b _ rest => b :: rest.chain
  | .rerun b _ _ rest => b :: rest.chain
  | .choice branches rest => branches.head :: rest.chain

mutual

/-- What is attached to all the nodes, in reading order: a node before what it owns, and that before
what follows. -/
def toList : Track β → List β
  | .stop => []
  | .symbol b rest => b :: rest.toList
  | .epsilon b rest => b :: rest.toList
  | .wrap b rest => b :: rest.toList
  | .optional b body rest => b :: (body.toList ++ rest.toList)
  | .iteration b body rest => b :: (body.toList ++ rest.toList)
  | .rerun b body between rest => b :: (body.toList ++ between.toList ++ rest.toList)
  | .choice branches rest => branchList branches ++ rest.toList

/-- What is attached to the branches and the nodes inside them, in reading order. -/
def branchList : Branches β → List β
  | .last b body => b :: body.toList
  | .more b body others => b :: (body.toList ++ branchList others)

end

/-- The level begins with a symbol. -/
def startsWithSymbol : Track β → Bool
  | .symbol _ _ => true
  | _ => false

/-- **A symbol that `rest` follows is joined to it by a connector** if a symbol comes next.  A
place where a row may end, but does not (`breaks`), is as good as not there. -/
def connects (breaks : β → Bool) : Track β → Bool
  | .symbol _ _ => true
  | .wrap b rest => !breaks b && rest.startsWithSymbol
  | _ => false

mutual

/-- The part of the tree that begins with the first node that has the property `p`: that node, what
follows it on its level, and all that these own. -/
def find? (p : β → Bool) : Track β → Option (Track β)
  | .stop => none
  | .symbol b rest => if p b then some (.symbol b rest) else rest.find? p
  | .epsilon b rest => if p b then some (.epsilon b rest) else rest.find? p
  | .wrap b rest => if p b then some (.wrap b rest) else rest.find? p
  | .optional b body rest =>
    if p b then some (.optional b body rest) else body.find? p <|> rest.find? p
  | .iteration b body rest =>
    if p b then some (.iteration b body rest) else body.find? p <|> rest.find? p
  | .rerun b body between rest =>
    if p b then some (.rerun b body between rest)
    else body.find? p <|> between.find? p <|> rest.find? p
  | .choice branches rest =>
    if p branches.head then some (.choice branches rest)
    else findBranch? p branches <|> rest.find? p

/-- The same among branches.  A branch below the head is a level of its own: the alternation of
it and those below it. -/
def findBranch? (p : β → Bool) : Branches β → Option (Track β)
  | .last b body => if p b then some (.choice (.last b body) .stop) else body.find? p
  | .more b body others =>
    if p b then some (.choice (.more b body others) .stop)
    else body.find? p <|> findBranch? p others

end

end Track

namespace Graph

mutual

/-- Reads the level that begins at a node, looking `fuel` links deep.  A level ends where a link
escapes, leads nowhere or leads out of the array. -/
def readTrack (g : Graph) : Nat → Option NodeId → Track Spot
  | 0, _ => .stop
  | fuel + 1, id =>
    match id.bind g.spot? with
    | none => .stop
    | some spot =>
      let rest := if spot.node.escapes then .stop else readTrack g fuel spot.node.next
      match spot.node.kind with
      | .terminal | .nonterminal => .symbol spot rest
      | .epsilon => .epsilon spot rest
      | .wrap => .wrap spot rest
      | .optional => .optional spot (readTrack g fuel spot.node.sub) rest
      | .iteration => .iteration spot (readTrack g fuel spot.node.sub) rest
      | .rerun =>
        .rerun spot (readTrack g fuel spot.node.sub) (readTrack g fuel spot.node.between) rest
      | .alternative => .choice (readBranches g fuel spot) rest

/-- Reads the branches from `spot` down. -/
def readBranches (g : Graph) : Nat → Spot → Branches Spot
  | 0, spot => .last spot .stop
  | fuel + 1, spot =>
    let body := readTrack g fuel spot.node.sub
    match spot.node.down.bind g.spot? with
    | none => .last spot body
    | some below => .more spot body (readBranches g fuel below)

end

/-- **The level that begins at a node,** read as a tree. -/
def trackFrom (g : Graph) (id : NodeId) : Track Spot := g.readTrack (2 * g.nodes.size) (some id)

/-- The whole graph, read as a tree. -/
def track (g : Graph) : Track Spot := g.trackFrom g.entry

end Graph

namespace Track

mutual

/-- The symbols that are joined to their successor by a connector, `has_connector`, when no row
ends. -/
def connected : Track Spot → List NodeId
  | .stop => []
  | .symbol b rest =>
    if rest.connects (fun _ => false) then b.id :: connected rest else connected rest
  | .epsilon _ rest => connected rest
  | .wrap _ rest => connected rest
  | .optional _ body rest => connected body ++ connected rest
  | .iteration _ body rest => connected body ++ connected rest
  | .rerun _ body between rest => connected body ++ connected between ++ connected rest
  | .choice branches rest => connectedBranches branches ++ connected rest

/-- The same inside branches. -/
def connectedBranches : Branches Spot → List NodeId
  | .last _ body => connected body
  | .more _ body others => connected body ++ connectedBranches others

end

end Track

end Railroad
