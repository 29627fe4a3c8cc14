/-
# What the closure check does

`Graph.Passes` and `Graph.Fails` are the check without a bound: one rule for each thing that can come
of walking a level, what a node owns, or the branches of an alternation, with the nodes that were
visited before and by then.

The walk marks each node that it comes by and stops at a marked one.  So something comes of every
course, and it is what `Graph.checkLevel` finds with the bound that it is given (`InRange.finds`); and
it is one thing only (`Comes.unique`).

The rules follow the code branch by branch, one rule for each way a function of the check can
return. What the functions have besides is fuel, and three mutual recursions of them share it; so
the proof that it suffices goes by induction on the fuel, over all kinds of courses at once
(`Finds`).  The measure that pays for a step is the number of nodes that were not visited yet, twice
because a node is one step and what it owns is another (`depth`).

Nothing here asks that the graph is in order.  It may have cycles and levels that are shared, and
that is what the check is for.
-/
import Mathlib.Data.Finset.Card
import Mathlib.Data.Finset.Range
import Railroad.Proofs.Graph.Linked

namespace Railroad

/-- A symbol owns no level. -/
theorem NodeKind.isComposite_of_isSymbol {kind : NodeKind} (h : kind.isSymbol = true) :
    kind.isComposite = false := by
  cases kind <;> first | rfl | cases h

namespace Graph

/-! ## 1. Links that lead to a node -/

/-- **Every link of the graph leads to a node of it,** and so does the one to its entry. -/
structure InRange (g : Graph) : Prop where
  entry : g.entry < g.nodes.size
  next : ∀ node ∈ g.nodes, ∀ id ∈ node.next, id < g.nodes.size
  sub : ∀ node ∈ g.nodes, ∀ id ∈ node.sub, id < g.nodes.size
  between : ∀ node ∈ g.nodes, ∀ id ∈ node.between, id < g.nodes.size
  down : ∀ node ∈ g.nodes, ∀ id ∈ node.down, id < g.nodes.size

/-! ## 2. The check without a bound -/

/-- **What the check is at:** a level, what the node at a place owns, or the branches below the head
of an alternation.  These are the three functions of the check that call each other. -/
inductive Course where
  | level (top : Bool) (id : NodeId)
  | owned (id : NodeId) (node : Node)
  | branches (id : NodeId)

/-- What a node owns besides the level inside it. -/
def further (node : Node) : Option Course :=
  match node.kind, node.between, node.down with
  | .rerun, some between, _ => some (.level false between)
  | .alternative, _, some down => some (.branches down)
  | _, _, _ => none

/-- **A course is checked and nothing is wrong.**  The nodes that were visited before go in, those
visited by then come out.  Nodes that were visited before are not gone into again, which is why a
check ends that would otherwise go round. -/
inductive Passes (g : Graph) : Course → List NodeId → List NodeId → Prop where
  | onward {top : Bool} {id next : NodeId} {node : Node} {visited inside out : List NodeId}
    (hn : g.arena id = some node) (hid : id ∉ visited)
    (ho : Passes g (.owned id node) (id :: visited) inside)
    (hnext : node.exit.onLevel = some next) (hrest : Passes g (.level top next) inside out) :
    Passes g (.level top id) visited out
  | last {top : Bool} {id : NodeId} {node : Node} {visited inside : List NodeId}
    (hn : g.arena id = some node) (hid : id ∉ visited)
    (ho : Passes g (.owned id node) (id :: visited) inside)
    (hnext : node.exit.onLevel = none) (hends : node.escapes = !top) :
    Passes g (.level top id) visited inside
  | plain {id : NodeId} {node : Node} {visited : List NodeId}
    (hs : node.kind.isSymbol = true → node.symbol.isSome = true)
    (hk : node.kind.isComposite = false) : Passes g (.owned id node) visited visited
  | body {id sub : NodeId} {node : Node} {visited inside : List NodeId}
    (hk : node.kind.isComposite = true) (hsub : node.sub = some sub)
    (hb : Passes g (.level false sub) visited inside) (hmore : further node = none) :
    Passes g (.owned id node) visited inside
  | bodyMore {id sub : NodeId} {node : Node} {visited inside out : List NodeId} {more : Course}
    (hk : node.kind.isComposite = true) (hsub : node.sub = some sub)
    (hb : Passes g (.level false sub) visited inside) (hmore : further node = some more)
    (hrest : Passes g more inside out) : Passes g (.owned id node) visited out
  | branch {id sub : NodeId} {node : Node} {visited inside : List NodeId}
    (hn : g.arena id = some node) (hid : id ∉ visited) (hk : node.kind = .alternative)
    (hsub : node.sub = some sub) (hb : Passes g (.level false sub) (id :: visited) inside)
    (hdown : node.down = none) : Passes g (.branches id) visited inside
  | branchMore {id sub down : NodeId} {node : Node} {visited inside out : List NodeId}
    (hn : g.arena id = some node) (hid : id ∉ visited) (hk : node.kind = .alternative)
    (hsub : node.sub = some sub) (hb : Passes g (.level false sub) (id :: visited) inside)
    (hdown : node.down = some down) (hrest : Passes g (.branches down) inside out) :
    Passes g (.branches id) visited out

/-- **A course is checked and something is wrong.**  The rules are tried in the order of the check,
so of several things wrong at a node the first is told. -/
inductive Fails (g : Graph) : Course → List NodeId → Malformed → Prop where
  | seen {top : Bool} {id : NodeId} {node : Node} {visited : List NodeId}
    (hn : g.arena id = some node) (hid : id ∈ visited) :
    Fails g (.level top id) visited (g.malformed id .visitedTwice)
  | owned {top : Bool} {id : NodeId} {node : Node} {visited : List NodeId} {e : Malformed}
    (hn : g.arena id = some node) (hid : id ∉ visited)
    (ho : Fails g (.owned id node) (id :: visited) e) : Fails g (.level top id) visited e
  | onward {top : Bool} {id next : NodeId} {node : Node} {visited inside : List NodeId}
    {e : Malformed} (hn : g.arena id = some node) (hid : id ∉ visited)
    (ho : g.Passes (.owned id node) (id :: visited) inside)
    (hnext : node.exit.onLevel = some next) (hrest : Fails g (.level top next) inside e) :
    Fails g (.level top id) visited e
  | topEscapes {id : NodeId} {node : Node} {visited inside : List NodeId}
    (hn : g.arena id = some node) (hid : id ∉ visited)
    (ho : g.Passes (.owned id node) (id :: visited) inside) (hends : node.escapes = true) :
    Fails g (.level true id) visited (g.malformed id .topEscapes)
  | nestedEnd {id : NodeId} {node : Node} {visited inside : List NodeId}
    (hn : g.arena id = some node) (hid : id ∉ visited)
    (ho : g.Passes (.owned id node) (id :: visited) inside)
    (hnext : node.exit.onLevel = none) (hends : node.escapes = false) :
    Fails g (.level false id) visited (g.malformed id .nestedEnd)
  | noSymbol {id : NodeId} {node : Node} {visited : List NodeId} (hk : node.kind.isSymbol = true)
    (hs : node.symbol = none) : Fails g (.owned id node) visited (g.malformed id .noSymbol)
  | noLevel {id : NodeId} {node : Node} {visited : List NodeId}
    (hk : node.kind.isComposite = true) (hsub : node.sub = none) :
    Fails g (.owned id node) visited (g.malformed id .noLevel)
  | body {id sub : NodeId} {node : Node} {visited : List NodeId} {e : Malformed}
    (hk : node.kind.isComposite = true) (hsub : node.sub = some sub)
    (hb : Fails g (.level false sub) visited e) : Fails g (.owned id node) visited e
  | bodyMore {id sub : NodeId} {node : Node} {visited inside : List NodeId} {more : Course}
    {e : Malformed} (hk : node.kind.isComposite = true) (hsub : node.sub = some sub)
    (hb : g.Passes (.level false sub) visited inside) (hmore : further node = some more)
    (hrest : Fails g more inside e) : Fails g (.owned id node) visited e
  | branchSeen {id : NodeId} {node : Node} {visited : List NodeId} (hn : g.arena id = some node)
    (hid : id ∈ visited) : Fails g (.branches id) visited (g.malformed id .branchVisitedTwice)
  | branchKind {id : NodeId} {node : Node} {visited : List NodeId} (hn : g.arena id = some node)
    (hid : id ∉ visited) (hk : node.kind ≠ .alternative) :
    Fails g (.branches id) visited (g.malformed id .branchKind)
  | branchLevel {id : NodeId} {node : Node} {visited : List NodeId} (hn : g.arena id = some node)
    (hid : id ∉ visited) (hk : node.kind = .alternative) (hsub : node.sub = none) :
    Fails g (.branches id) visited (g.malformed id .branchLevel)
  | branch {id sub : NodeId} {node : Node} {visited : List NodeId} {e : Malformed}
    (hn : g.arena id = some node) (hid : id ∉ visited) (hk : node.kind = .alternative)
    (hsub : node.sub = some sub) (hb : Fails g (.level false sub) (id :: visited) e) :
    Fails g (.branches id) visited e
  | branchMore {id sub down : NodeId} {node : Node} {visited inside : List NodeId} {e : Malformed}
    (hn : g.arena id = some node) (hid : id ∉ visited) (hk : node.kind = .alternative)
    (hsub : node.sub = some sub) (hb : g.Passes (.level false sub) (id :: visited) inside)
    (hdown : node.down = some down) (hrest : Fails g (.branches down) inside e) :
    Fails g (.branches id) visited e

/-- **What comes of a course:** all that was visited by then, or a defect.  At most one of the two
can be, and for a graph in range one of them is. -/
def Comes (g : Graph) (c : Course) (visited : List NodeId) : Except Malformed (List NodeId) → Prop
  | .ok out => g.Passes c visited out
  | .error e => g.Fails c visited e

variable {g : Graph} {c : Course} {visited out : List NodeId}

/-! The guards of two rules about the same kind of course exclude each other. -/

theorem Passes.unique {out' : List NodeId} (h : g.Passes c visited out)
    (h' : g.Passes c visited out') : out = out' := by
  induction h generalizing out' <;> cases h' <;> grind

theorem Fails.not_passes {e : Malformed} (h : g.Fails c visited e) : ¬ g.Passes c visited out := by
  intro h'
  induction h generalizing out <;> cases h' <;>
    grind [NodeKind.isComposite_of_isSymbol, Passes.unique, Exit.onLevel, Node.exit]

theorem Fails.unique {e e' : Malformed} (h : g.Fails c visited e) (h' : g.Fails c visited e') :
    e = e' := by
  induction h generalizing e' <;> cases h' <;>
    grind [NodeKind.isComposite_of_isSymbol, Passes.unique, Fails.not_passes, Exit.onLevel,
      Node.exit]

/-- **One thing comes of a course.** -/
theorem Comes.unique {r r' : Except Malformed (List NodeId)} (h : g.Comes c visited r)
    (h' : g.Comes c visited r') : r = r' := by
  cases r with
  | ok out =>
    cases r' with
    | ok out' => exact congrArg Except.ok (Passes.unique h h')
    | error e' => exact absurd h (Fails.not_passes h')
  | error e =>
    cases r' with
    | ok out' => exact absurd h' (Fails.not_passes h)
    | error e' => exact congrArg Except.error (Fails.unique h h')

/-- What was visited before is visited by then. -/
theorem Passes.suffix (h : g.Passes c visited out) : visited <:+ out := by
  induction h with
  | plain => exact List.suffix_refl _
  | onward _ _ _ _ _ iho ih | branchMore _ _ _ _ _ _ _ iho ih =>
    exact (List.suffix_cons _ _).trans (iho.trans ih)
  | last _ _ _ _ _ ih | branch _ _ _ _ _ _ ih => exact (List.suffix_cons _ _).trans ih
  | body _ _ _ _ ih => exact ih
  | bodyMore _ _ _ _ _ ihb ih => exact ihb.trans ih

/-- Nothing is visited twice. -/
theorem Passes.nodup (h : g.Passes c visited out) (hv : visited.Nodup) : out.Nodup := by
  induction h with
  | plain => exact hv
  | onward _ hid _ _ _ iho ih | branchMore _ hid _ _ _ _ _ iho ih =>
    exact ih (iho (List.nodup_cons.mpr ⟨hid, hv⟩))
  | last _ hid _ _ _ ih | branch _ hid _ _ _ _ ih => exact ih (List.nodup_cons.mpr ⟨hid, hv⟩)
  | body _ _ _ _ ih => exact ih hv
  | bodyMore _ _ _ _ _ ihb ih => exact ih (ihb hv)

/-! ## 3. The check with a bound -/

/-- What the check finds on a course, looking `fuel` steps deep. -/
def checkCourse (g : Graph) (fuel : Nat) (c : Course) (visited : List NodeId) :
    Except Malformed (List NodeId) :=
  match c with
  | .level top id => g.checkLevel top fuel id visited
  | .owned id node => g.checkChildren fuel id node visited
  | .branches id => g.checkBranches fuel id visited

/-- How many nodes are still to be visited. -/
def unvisited (g : Graph) (visited : List NodeId) : Nat :=
  (Finset.range g.nodes.size \ visited.toFinset).card

theorem unvisited_cons {id : NodeId} {node : Node} (hn : g.arena id = some node)
    (hid : id ∉ visited) : g.unvisited (id :: visited) < g.unvisited visited := by
  have hlt : id < g.nodes.size := (Array.getElem?_eq_some_iff.mp hn).1
  refine Finset.card_lt_card (Finset.ssubset_iff_subset_ne.mpr ⟨?_, fun heq => ?_⟩)
  · exact Finset.sdiff_subset_sdiff (Finset.Subset.refl _) (by simp)
  · have hmem : id ∈ Finset.range g.nodes.size \ visited.toFinset := by simp [hlt, hid]
    rw [← heq] at hmem
    simp at hmem

theorem Passes.unvisited_le (h : g.Passes c visited out) :
    g.unvisited out ≤ g.unvisited visited := by
  refine Finset.card_le_card (Finset.sdiff_subset_sdiff (Finset.Subset.refl _) fun id hid => ?_)
  exact List.mem_toFinset.mpr (h.suffix.subset (List.mem_toFinset.mp hid))

/-- The course is one that the graph has. -/
def Has (g : Graph) : Course → Prop
  | .level _ id | .branches id => ∃ node, g.arena id = some node
  | .owned id node => g.arena id = some node

/-- How deep a course is looked at, at most.  A node is a step of its own before what it owns is. -/
def depth (g : Graph) (visited : List NodeId) : Course → Nat
  | .level _ _ | .branches _ => 2 * g.unvisited visited + 1
  | .owned _ _ => 2 * g.unvisited visited + 2

theorem exists_node {id : NodeId} (h : id < g.nodes.size) : ∃ node, g.arena id = some node :=
  ⟨_, Array.getElem?_eq_getElem h⟩

theorem mem_of_arena {id : NodeId} {node : Node} (h : g.arena id = some node) : node ∈ g.nodes :=
  Array.mem_of_getElem? h

/-- The check with a bound finds what comes of every course that it may look deep enough into. -/
def Finds (g : Graph) (fuel : Nat) : Prop :=
  ∀ (c : Course) (visited : List NodeId), g.Has c → g.depth visited c ≤ fuel →
    g.Comes c visited (g.checkCourse fuel c visited)

section Steps

variable {fuel : Nat}

/-- A level that goes on comes to what the rest of it comes to. -/
theorem Comes.onward {top : Bool} {id next : NodeId} {node : Node} {inside : List NodeId}
    {r : Except Malformed (List NodeId)} (hn : g.arena id = some node) (hid : id ∉ visited)
    (ho : g.Passes (.owned id node) (id :: visited) inside)
    (hnext : node.exit.onLevel = some next) (hrest : g.Comes (.level top next) inside r) :
    g.Comes (.level top id) visited r := by
  cases r with
  | ok out => exact Passes.onward hn hid ho hnext hrest
  | error e => exact Fails.onward hn hid ho hnext hrest

theorem Finds.onward (h : g.Finds fuel) (hg : g.InRange) {top : Bool} {id : NodeId} {node : Node}
    {inside : List NodeId} (hn : g.arena id = some node) (hid : id ∉ visited)
    (ho : g.Passes (.owned id node) (id :: visited) inside)
    (hfuel : 2 * g.unvisited inside + 1 ≤ fuel) :
    g.Comes (.level top id) visited (g.checkOnward top fuel id node.exit inside) := by
  unfold checkOnward
  split
  case h_1 next hnext hescapes =>
    have hlt := hg.next node (mem_of_arena hn) next hnext
    have honLevel : node.exit.onLevel = some next := by simp [Exit.onLevel, hnext, hescapes]
    exact .onward hn hid ho honLevel (h (.level top next) _ (exists_node hlt) hfuel)
  case h_2 hnext hescapes =>
    have honLevel : node.exit.onLevel = none := by simp [Exit.onLevel, hnext]
    cases top with
    | true => exact Passes.last hn hid ho honLevel hescapes
    | false => exact Fails.nestedEnd hn hid ho honLevel hescapes
  case h_3 hescapes =>
    have honLevel : node.exit.onLevel = none := by simp [Exit.onLevel, hescapes]
    cases top with
    | true => exact Fails.topEscapes hn hid ho hescapes
    | false => exact Passes.last hn hid ho honLevel hescapes

theorem Finds.level (h : g.Finds fuel) (hg : g.InRange) {top : Bool} {id : NodeId}
    (hc : g.Has (.level top id)) (hfuel : g.depth visited (.level top id) ≤ fuel + 1) :
    g.Comes (.level top id) visited (g.checkLevel top (fuel + 1) id visited) := by
  obtain ⟨node, hn⟩ := hc
  have hnode : g.nodes[id]? = some node := hn
  simp only [depth] at hfuel
  by_cases hid : id ∈ visited
  · simp only [checkLevel, hnode, List.contains_eq_mem, hid, decide_true, if_true]
    exact Fails.seen hn hid
  · have hlt := unvisited_cons hn hid
    have ho := h (.owned id node) (id :: visited) hn (by simp only [depth]; omega)
    rw [checkCourse] at ho
    cases hresult : g.checkChildren fuel id node (id :: visited) with
    | error e =>
      rw [hresult] at ho
      simp only [checkLevel, hnode, List.contains_eq_mem, hid, decide_false, Bool.false_eq_true,
        if_false, hresult]
      exact Fails.owned hn hid ho
    | ok inside =>
      rw [hresult] at ho
      have hle := Passes.unvisited_le ho
      rw [checkLevel_node hn hid hresult]
      exact h.onward hg hn hid ho (by omega)

/-- What the rest of what a node owns comes to, all of it comes to. -/
theorem Comes.bodyMore {id sub : NodeId} {node : Node} {inside : List NodeId} {more : Course}
    {r : Except Malformed (List NodeId)} (hk : node.kind.isComposite = true)
    (hsub : node.sub = some sub) (hb : g.Passes (.level false sub) visited inside)
    (hmore : further node = some more) (hrest : g.Comes more inside r) :
    g.Comes (.owned id node) visited r := by
  cases r with
  | ok out => exact Passes.bodyMore hk hsub hb hmore hrest
  | error e => exact Fails.bodyMore hk hsub hb hmore hrest

theorem Finds.owned (h : g.Finds fuel) (hg : g.InRange) {id : NodeId} {node : Node}
    (hn : g.arena id = some node) (hfuel : g.depth visited (.owned id node) ≤ fuel + 1) :
    g.Comes (.owned id node) visited (g.checkChildren (fuel + 1) id node visited) := by
  have hmem := mem_of_arena hn
  simp only [depth] at hfuel
  rw [checkChildren]
  split
  case isTrue hs =>
    rw [Bool.and_eq_true, Option.isNone_iff_eq_none] at hs
    exact Fails.noSymbol hs.1 hs.2
  case isFalse hs =>
    have hs' : node.kind.isSymbol = true → node.symbol.isSome = true := by
      intro hk
      simpa [hk, Option.isSome_iff_ne_none] using hs
    split
    case isTrue hk => exact Passes.plain hs' (by simpa using hk)
    case isFalse hk =>
      have hk' : node.kind.isComposite = true := by simpa using hk
      split
      case h_1 hsub => exact Fails.noLevel hk' hsub
      case h_2 sub hsub =>
        have hb := h (.level false sub) visited
          (exists_node (hg.sub node hmem sub hsub)) (by simp only [depth]; omega)
        rw [checkCourse] at hb
        split
        case h_1 e he =>
          rw [he] at hb
          exact Fails.body hk' hsub hb
        case h_2 inside hinside =>
          rw [hinside] at hb
          have hle := Passes.unvisited_le hb
          split
          case h_1 between hkind hbetween =>
            have hmore : further node = some (.level false between) := by
              simp [further, hkind, hbetween]
            exact .bodyMore hk' hsub hb hmore (h (.level false between) _
              (exists_node (hg.between node hmem between hbetween)) (by simp only [depth]; omega))
          case h_2 down hkind hdown =>
            have hmore : further node = some (.branches down) := by
              simp [further, hkind, hdown]
            exact .bodyMore hk' hsub hb hmore (h (.branches down) _
              (exists_node (hg.down node hmem down hdown)) (by simp only [depth]; omega))
          case h_3 hrerun hchoice =>
            have hmore : further node = none := by
              unfold further
              split <;> simp_all
            exact Passes.body hk' hsub hb hmore

theorem Comes.branchMore {id sub down : NodeId} {node : Node} {inside : List NodeId}
    {r : Except Malformed (List NodeId)} (hn : g.arena id = some node) (hid : id ∉ visited)
    (hk : node.kind = .alternative) (hsub : node.sub = some sub)
    (hb : g.Passes (.level false sub) (id :: visited) inside) (hdown : node.down = some down)
    (hrest : g.Comes (.branches down) inside r) : g.Comes (.branches id) visited r := by
  cases r with
  | ok out => exact Passes.branchMore hn hid hk hsub hb hdown hrest
  | error e => exact Fails.branchMore hn hid hk hsub hb hdown hrest

theorem Finds.branches (h : g.Finds fuel) (hg : g.InRange) {id : NodeId}
    (hc : g.Has (.branches id)) (hfuel : g.depth visited (.branches id) ≤ fuel + 1) :
    g.Comes (.branches id) visited (g.checkBranches (fuel + 1) id visited) := by
  obtain ⟨node, hn⟩ := hc
  have hmem := mem_of_arena hn
  simp only [depth] at hfuel
  rw [checkBranches]
  split
  case h_1 hnone => exact absurd (hnone.symm.trans hn) (by simp)
  case h_2 node' hn' =>
    obtain rfl : node = node' := Option.some.inj (hn.symm.trans hn')
    split
    case isTrue hid => exact Fails.branchSeen hn (by simpa using hid)
    case isFalse hid =>
      have hid' : id ∉ visited := by simpa using hid
      have hlt := unvisited_cons hn hid'
      split
      case isTrue hk => exact Fails.branchKind hn hid' (by simpa using hk)
      case isFalse hk =>
        have hk' : node.kind = .alternative := by simpa using hk
        split
        case h_1 hsub => exact Fails.branchLevel hn hid' hk' hsub
        case h_2 sub hsub =>
          have hb := h (.level false sub) (id :: visited)
            (exists_node (hg.sub node hmem sub hsub)) (by simp only [depth]; omega)
          rw [checkCourse] at hb
          split
          case h_1 e he =>
            rw [he] at hb
            exact Fails.branch hn hid' hk' hsub hb
          case h_2 inside hinside =>
            rw [hinside] at hb
            have hle := Passes.unvisited_le hb
            split
            case h_1 hdown => exact Passes.branch hn hid' hk' hsub hb hdown
            case h_2 down hdown =>
              exact .branchMore hn hid' hk' hsub hb hdown (h (.branches down) _
                (exists_node (hg.down node hmem down hdown)) (by simp only [depth]; omega))

end Steps

/-- **The check with a bound finds what comes of a course,** if it may look deep enough. -/
theorem InRange.finds (hg : g.InRange) (fuel : Nat) : g.Finds fuel := by
  induction fuel with
  | zero =>
    intro c visited _ hfuel
    cases c <;> simp [depth] at hfuel
  | succ fuel ih =>
    intro c visited hc hfuel
    cases c with
    | level top id => exact ih.level hg hc hfuel
    | owned id node => exact ih.owned hg hc hfuel
    | branches id => exact ih.branches hg hc hfuel

end Graph

end Railroad
