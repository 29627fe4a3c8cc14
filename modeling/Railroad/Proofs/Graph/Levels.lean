/-
# Levels node by node

A graph can be looked at level by level: `Graph.level` lists the nodes of one, `Graph.branches` the
branches of one alternation, and each of these walks is cut off after as many nodes as the graph
has.  `Graph.levels` puts them together to a tree.

Where the walk through the graph ends and comes by no more nodes than there are, no walk along a
level is cut off, for every node of a level or of an alternation is another one of the tree; and what
the walks put together is the tree that `Graph.track` reads (`Graph.HasTree.levels_eq`).

So there are two readings of a graph, one that follows links with a depth and one that lists levels
with a length, and they were written for different purposes.  On a graph with a tree it does not
matter which is used.
-/
import Railroad.Proofs.Graph.Linked

namespace Railroad

/-! ## 1. Walks -/

/-- Branches from the first one and the others. -/
def Branches.ofList {β : Type} (first : β × Track β) : List (β × Track β) → Branches β
  | [] => .last first.1 first.2
  | other :: others => .more first.1 first.2 (ofList other others)

namespace Graph

/-- The nodes from a place on, each leading to the next by the link `onward`; there are `remaining`
of them at most. -/
def walk (g : Graph) (onward : Node → Option NodeId) : Nat → Option NodeId → List Spot
  | 0, _ => []
  | remaining + 1, id =>
    match id.bind g.spot? with
    | none => []
    | some spot => spot :: g.walk onward remaining (onward spot.node)

/-- **The nodes of the level** that begins at `start`. -/
def level (g : Graph) (start : Option NodeId) : List Spot :=
  g.walk (fun node => node.exit.onLevel) g.nodes.size start

/-- **The branches of the alternation** that `head` is the first branch of, `head` included. -/
def branches (g : Graph) (head : NodeId) : List Spot := g.walk (·.down) g.nodes.size (some head)

/-- A node with what follows it on its level; `inside` reads the levels it owns. -/
def spotTrack (g : Graph) (inside : Option NodeId → Track Spot) (spot : Spot) (rest : Track Spot) :
    Track Spot :=
  match spot.node.kind with
  | .terminal | .nonterminal => .symbol spot rest
  | .epsilon => .epsilon spot rest
  | .wrap => .wrap spot rest
  | .optional => .optional spot (inside spot.node.sub) rest
  | .iteration => .iteration spot (inside spot.node.sub) rest
  | .rerun => .rerun spot (inside spot.node.sub) (inside spot.node.between) rest
  | .alternative =>
    .choice (.ofList (spot, inside spot.node.sub)
      ((g.branches spot.id).tail.map fun branch => (branch, inside branch.node.sub))) rest

/-- The level that begins at `start` and the levels inside it, `depth` of them one in the other. -/
def levelsFrom (g : Graph) : Nat → Option NodeId → Track Spot
  | 0, _ => .stop
  | depth + 1, start => (g.level start).foldr (g.spotTrack (g.levelsFrom depth)) .stop

/-- **The whole graph, read level by level.** -/
def levels (g : Graph) : Track Spot := g.levelsFrom (g.nodes.size + 1) (some g.entry)

/-! ## 2. Walks along a tree -/

variable {g : Graph}

theorem walk_node {onward : Node → Option NodeId} {remaining : Nat} {id : NodeId} {node : Node}
    (h : g.arena id = some node) : g.walk onward (remaining + 1) (some id) =
      g.spotAt id :: g.walk onward remaining (onward node) := by
  rw [walk, Option.bind_some, spot?_of_arena h]
  simp only [spotAt_node h]

theorem walk_none (onward : Node → Option NodeId) (remaining : Nat) :
    g.walk onward remaining none = [] := by
  cases remaining <;> rfl

end Graph

variable {g : Graph}

/-- **A walk along a level has its nodes,** if it is not cut off. -/
theorem Traced.walk_eq : ∀ {t : Track NodeId} {start : Option NodeId} {remaining : Nat},
    Traced g.arena start t → t.chain.length ≤ remaining →
    g.walk (fun node => node.exit.onLevel) remaining start = t.chain.map g.spotAt
  | .stop, _, _, h, _ => by
    rw [h, Graph.walk_none]
    rfl
  | .symbol _ rest, _, _, ⟨hi, node, hn, _, hr⟩, hlen
  | .epsilon _ rest, _, _, ⟨hi, node, hn, _, hr⟩, hlen
  | .wrap _ rest, _, _, ⟨hi, node, hn, _, hr⟩, hlen
  | .optional _ _ rest, _, _, ⟨hi, node, hn, _, _, hr⟩, hlen
  | .iteration _ _ rest, _, _, ⟨hi, node, hn, _, _, hr⟩, hlen
  | .rerun _ _ _ rest, _, _, ⟨hi, node, hn, _, _, _, hr⟩, hlen => by
    obtain ⟨remaining, rfl⟩ := Nat.exists_eq_add_of_le' (Nat.lt_of_lt_of_le (Nat.succ_pos _) hlen)
    rw [hi, Graph.walk_node hn, hr.walk_eq (Nat.le_of_succ_le_succ hlen)]
    rfl
  | .choice _ rest, _, _, ⟨node, hn, hb, hr⟩, hlen => by
    obtain ⟨remaining, rfl⟩ := Nat.exists_eq_add_of_le' (Nat.lt_of_lt_of_le (Nat.succ_pos _) hlen)
    rw [hb.head.1, Graph.walk_node hn, hr.walk_eq (Nat.le_of_succ_le_succ hlen)]
    rfl

/-- **A walk down an alternation has its branches,** if it is not cut off. -/
theorem TracedBranches.walk_eq : ∀ {bs : Branches NodeId} {start : Option NodeId}
    {remaining : Nat}, TracedBranches g.arena start bs →
    bs.marks.length ≤ remaining → g.walk (·.down) remaining start = bs.marks.map g.spotAt
  | .last _ _, _, _, ⟨hi, node, hn, _, hd, _⟩, hlen => by
    obtain ⟨remaining, rfl⟩ := Nat.exists_eq_add_of_le' (Nat.lt_of_lt_of_le (Nat.succ_pos _) hlen)
    rw [hi, Graph.walk_node hn, hd, Graph.walk_none]
    rfl
  | .more _ _ others, _, _, ⟨hi, node, hn, _, _, ho⟩, hlen => by
    obtain ⟨remaining, rfl⟩ := Nat.exists_eq_add_of_le' (Nat.lt_of_lt_of_le (Nat.succ_pos _) hlen)
    rw [hi, Graph.walk_node hn, ho.walk_eq (Nat.le_of_succ_le_succ hlen)]
    rfl

/-! ## 3. The tree of all walks -/

namespace Track

variable {β : Type}

theorem length_chain_le (t : Track β) : t.chain.length ≤ t.toList.length := by
  have hlen := (toList_perm t).length_eq
  rw [List.length_append] at hlen
  omega

theorem length_marks_le (bs : Branches β) : bs.marks.length ≤ (branchList bs).length := by
  cases bs with
  | last _ _ => exact Nat.succ_le_succ (Nat.zero_le _)
  | more _ _ others =>
    have ih := length_marks_le others
    simp only [Branches.marks, branchList, List.length_cons, List.length_append]
    omega

end Track

/-- A level is read off its nodes if these are read right. -/
theorem Traced.levelsFrom_eq {t : Track NodeId} {start : Option NodeId} {depth : Nat}
    (h : Traced g.arena start t) (hsize : t.toList.length ≤ g.nodes.size)
    (hnodes : (t.chain.map g.spotAt).foldr (g.spotTrack (g.levelsFrom depth)) .stop
      = t.map g.spotAt) :
    g.levelsFrom (depth + 1) start = t.map g.spotAt := by
  have hwalk := h.walk_eq (Nat.le_trans (Track.length_chain_le t) hsize)
  rw [Graph.levelsFrom, Graph.level, hwalk, hnodes]

mutual

/-- **The nodes of a level, put together, are the tree** that the walk comes by. -/
theorem Traced.foldr_spotTrack : ∀ {t : Track NodeId} {start : Option NodeId} {depth : Nat},
    Traced g.arena start t → t.toList.length ≤ depth → t.toList.length ≤ g.nodes.size →
    (t.chain.map g.spotAt).foldr (g.spotTrack (g.levelsFrom depth)) .stop = t.map g.spotAt
  | .stop, _, _, _, _, _ => rfl
  | .symbol id rest, _, depth, ⟨_, node, hn, hk, hr⟩, hdepth, hsize => by
    simp only [Track.toList, List.length_cons] at hdepth hsize
    rw [Track.chain, List.map_cons, List.foldr_cons,
      hr.foldr_spotTrack (by omega) (by omega), Graph.spotTrack, Graph.spotAt_node hn]
    cases hkind : node.kind <;> simp_all [NodeKind.isSymbol, Track.map]
  | .epsilon id rest, _, depth, ⟨_, node, hn, hk, hr⟩, hdepth, hsize
  | .wrap id rest, _, depth, ⟨_, node, hn, hk, hr⟩, hdepth, hsize => by
    simp only [Track.toList, List.length_cons] at hdepth hsize
    rw [Track.chain, List.map_cons, List.foldr_cons,
      hr.foldr_spotTrack (by omega) (by omega), Graph.spotTrack, Graph.spotAt_node hn, hk]
    rfl
  | .optional id body rest, _, depth, ⟨_, node, hn, hk, hb, hr⟩, hdepth, hsize
  | .iteration id body rest, _, depth, ⟨_, node, hn, hk, hb, hr⟩, hdepth, hsize => by
    simp only [Track.toList, List.length_cons, List.length_append] at hdepth hsize
    obtain ⟨depth, rfl⟩ : ∃ k, depth = k + 1 := ⟨depth - 1, by omega⟩
    have hbody : g.levelsFrom (depth + 1) node.sub = body.map g.spotAt :=
      hb.levelsFrom_eq (by omega) (hb.foldr_spotTrack (by omega) (by omega))
    rw [Track.chain, List.map_cons, List.foldr_cons,
      hr.foldr_spotTrack (by omega) (by omega), Graph.spotTrack, Graph.spotAt_node hn, hk]
    simp only [hbody]
    rfl
  | .rerun id body between rest, _, depth, ⟨_, node, hn, hk, hb, hw, hr⟩, hdepth, hsize => by
    simp only [Track.toList, List.length_cons, List.length_append] at hdepth hsize
    obtain ⟨depth, rfl⟩ : ∃ k, depth = k + 1 := ⟨depth - 1, by omega⟩
    have hbody : g.levelsFrom (depth + 1) node.sub = body.map g.spotAt :=
      hb.levelsFrom_eq (by omega) (hb.foldr_spotTrack (by omega) (by omega))
    have hbetween : g.levelsFrom (depth + 1) node.between = between.map g.spotAt :=
      hw.levelsFrom_eq (by omega) (hw.foldr_spotTrack (by omega) (by omega))
    rw [Track.chain, List.map_cons, List.foldr_cons,
      hr.foldr_spotTrack (by omega) (by omega), Graph.spotTrack, Graph.spotAt_node hn, hk]
    simp only [hbody, hbetween]
    rfl
  | .choice bs rest, _, depth, ⟨node, hn, hb, hr⟩, hdepth, hsize => by
    simp only [Track.toList, List.length_append] at hdepth hsize
    have hpos : 0 < (Track.branchList bs).length :=
      List.length_pos_of_mem (Track.head_mem_branchList bs)
    obtain ⟨hi, node', hn', hk⟩ := hb.head
    obtain rfl : node' = node := Option.some.inj (hn'.symm.trans hn)
    have hbranches : g.branches bs.head = bs.marks.map g.spotAt := by
      rw [Graph.branches, ← hi]
      exact hb.walk_eq (Nat.le_trans (Track.length_marks_le bs) (by omega))
    have hbs := hb.ofList_eq depth (by omega) (by omega)
    rw [Graph.spotAt_node hn] at hbs
    rw [Track.chain, List.map_cons, List.foldr_cons,
      hr.foldr_spotTrack (by omega) (by omega), Graph.spotTrack, Graph.spotAt_node hn, hk,
      Graph.spotAt_id, hbranches]
    simp only [← List.map_tail, hbs]
    rfl

/-- The branches of an alternation with what is read inside them are its part of the tree. -/
theorem TracedBranches.ofList_eq : ∀ {bs : Branches NodeId} {start : Option NodeId} (depth : Nat),
    TracedBranches g.arena start bs → (Track.branchList bs).length ≤ depth →
    (Track.branchList bs).length ≤ g.nodes.size →
    Branches.ofList (g.spotAt bs.head, g.levelsFrom depth (g.spotAt bs.head).node.sub)
        ((bs.marks.tail.map g.spotAt).map fun branch =>
          (branch, g.levelsFrom depth branch.node.sub))
      = Track.mapBranches g.spotAt bs
  | .last id body, _, depth, ⟨_, node, hn, _, _, hb⟩, hdepth, hsize => by
    simp only [Track.branchList, List.length_cons] at hdepth hsize
    obtain ⟨depth, rfl⟩ : ∃ k, depth = k + 1 := ⟨depth - 1, by omega⟩
    have hbody : g.levelsFrom (depth + 1) node.sub = body.map g.spotAt :=
      hb.levelsFrom_eq (by omega) (hb.foldr_spotTrack (by omega) (by omega))
    rw [Branches.head, Graph.spotAt_node hn, hbody]
    rfl
  | .more id body others, _, depth, ⟨_, node, hn, _, hb, ho⟩, hdepth, hsize => by
    simp only [Track.branchList, List.length_cons, List.length_append] at hdepth hsize
    have hothers := ho.ofList_eq depth (by omega) (by omega)
    obtain ⟨depth, rfl⟩ : ∃ k, depth = k + 1 := ⟨depth - 1, by omega⟩
    have hbody : g.levelsFrom (depth + 1) node.sub = body.map g.spotAt :=
      hb.levelsFrom_eq (by omega) (hb.foldr_spotTrack (by omega) (by omega))
    rw [Branches.head, Branches.marks, List.tail_cons, Track.marks_eq_head_cons, List.map_cons,
      List.map_cons, Branches.ofList, hothers, Graph.spotAt_node hn, hbody]
    rfl

end

/-- A walk of no more nodes than the graph has is read level by level. -/
theorem Traced.levels_eq {t : Track NodeId} (h : Traced g.arena (some g.entry) t)
    (hsize : t.toList.length ≤ g.nodes.size) : g.levels = t.map g.spotAt :=
  h.levelsFrom_eq hsize (h.foldr_spotTrack hsize hsize)

/-- **Level by level or link by link, a graph is read as the same tree.** -/
theorem Graph.HasTree.levels_eq {t : Track NodeId} (h : g.HasTree Exit.Similar t) :
    g.levels = g.track :=
  (h.traced.levels_eq (Nat.le_of_eq h.length_eq)).trans h.track_eq.symm

/-- The top level of a graph is that of its tree. -/
theorem Graph.HasTree.level_entry {t : Track NodeId} (h : g.HasTree Exit.Similar t) :
    g.level (some g.entry) = t.chain.map g.spotAt :=
  h.traced.walk_eq (Nat.le_trans (Track.length_chain_le t) (Nat.le_of_eq h.length_eq))

end Railroad
