/-
# Walks through an arena

Everyone who goes through a graph goes in one way: along each level up to the link that escapes, into
the levels that a node owns, and down the branches of an alternation.  `Traced` says that this walk,
which nothing bounds, comes to an end and that the tree `t` is what it has come by.  Nothing is asked
of the links that the walk does not look at, such as those that leave a level or a further branch.

What is read off the links with a bound is the tree of the walk, if the bound is large enough for it
(`Traced.readTrack_eq`).

The walk is given as a relation to the tree it comes by, so that it can be talked about before it is
known to end.  A graph has at most one such tree, and the functions that read a graph, with whatever
bounds they have, give images of it.
-/
import Railroad.Proofs.Graph.Track

namespace Railroad

/-! ## 1. Arenas and exits -/

/-- **The nodes of a graph by their places.** -/
abbrev Arena := NodeId → Option Node

/-- The arena of a graph. -/
def Graph.arena (g : Graph) : Arena := fun id => g.nodes[id]?

/-- **Where a node leads,** and whether it leaves its level in doing so. -/
structure Exit where
  next : Option NodeId
  escapes : Bool

/-- Where a node leads. -/
def Node.exit (node : Node) : Exit := ⟨node.next, node.escapes⟩

namespace Exit

/-- On the level, to a place or nowhere. -/
def along (next : Option NodeId) : Exit := ⟨next, false⟩

/-- Out of the level, to a place or nowhere. -/
def out (next : Option NodeId) : Exit := ⟨next, true⟩

/-- The way from the end of a rerun's second level, if there is one, back to the rerun. -/
def wayBack (id : NodeId) (start : Option NodeId) : Exit :=
  if start.isSome then .out (some id) else .along none

/-- The place that follows on the level. -/
def onLevel (e : Exit) : Option NodeId := if e.escapes then none else e.next

/-- Both leave the level, or both stay on it and lead to the same place. -/
def Similar (expected e : Exit) : Prop :=
  e.escapes = expected.escapes ∧ (expected.escapes = false → e.next = expected.next)

theorem Similar.refl (e : Exit) : Similar e e := ⟨rfl, fun _ => rfl⟩

theorem Similar.of_eq {expected e : Exit} (h : expected = e) : Similar expected e := h ▸ .refl _

theorem Similar.onLevel_eq {expected e : Exit} (h : Similar expected e) :
    e.onLevel = expected.onLevel := by
  obtain ⟨he, hn⟩ := h
  unfold onLevel
  rw [he]
  cases hx : expected.escapes with
  | true => rfl
  | false => rw [hn hx]

@[simp] theorem onLevel_along (next : Option NodeId) : (along next).onLevel = next := rfl

end Exit

/-! ## 2. The walk -/

variable {arena : Arena}

mutual

/-- **The walk along the level that begins at `start`** ends, and `t` is what it comes by.  A walk
that never ends has no such tree. -/
def Traced (arena : Arena) (start : Option NodeId) : Track NodeId → Prop
  | .stop => start = none
  | .symbol id rest =>
    start = some id ∧ ∃ node, arena id = some node ∧ node.kind.isSymbol = true ∧
      Traced arena node.exit.onLevel rest
  | .epsilon id rest =>
    start = some id ∧ ∃ node, arena id = some node ∧ node.kind = .epsilon ∧
      Traced arena node.exit.onLevel rest
  | .wrap id rest =>
    start = some id ∧ ∃ node, arena id = some node ∧ node.kind = .wrap ∧
      Traced arena node.exit.onLevel rest
  | .optional id body rest =>
    start = some id ∧ ∃ node, arena id = some node ∧ node.kind = .optional ∧
      Traced arena node.sub body ∧ Traced arena node.exit.onLevel rest
  | .iteration id body rest =>
    start = some id ∧ ∃ node, arena id = some node ∧ node.kind = .iteration ∧
      Traced arena node.sub body ∧ Traced arena node.exit.onLevel rest
  | .rerun id body between rest =>
    start = some id ∧ ∃ node, arena id = some node ∧ node.kind = .rerun ∧
      Traced arena node.sub body ∧ Traced arena node.between between ∧
      Traced arena node.exit.onLevel rest
  | .choice branches rest =>
    ∃ node, arena branches.head = some node ∧ TracedBranches arena start branches ∧
      Traced arena node.exit.onLevel rest

/-- The walk down the branches of an alternation, from `start` on, and along their levels. -/
def TracedBranches (arena : Arena) (start : Option NodeId) : Branches NodeId → Prop
  | .last id body =>
    start = some id ∧ ∃ node, arena id = some node ∧ node.kind = .alternative ∧ node.down = none ∧
      Traced arena node.sub body
  | .more id body others =>
    start = some id ∧ ∃ node, arena id = some node ∧ node.kind = .alternative ∧
      Traced arena node.sub body ∧ TracedBranches arena node.down others

end

/-- Branches begin where the walk down them does, at a branch. -/
theorem TracedBranches.head {start : Option NodeId} {bs : Branches NodeId}
    (h : TracedBranches arena start bs) :
    start = some bs.head ∧ ∃ node, arena bs.head = some node ∧ node.kind = .alternative := by
  cases bs with
  | last id body =>
    obtain ⟨hi, node, hn, hk, -⟩ := h
    exact ⟨hi, node, hn, hk⟩
  | more id body others =>
    obtain ⟨hi, node, hn, hk, -⟩ := h
    exact ⟨hi, node, hn, hk⟩

/-! ## 3. The tree that is read -/

namespace Graph

/-- The node at a place of the arena. -/
def spotAt (g : Graph) (id : NodeId) : Spot :=
  ⟨id, (g.arena id).getD { serial := 0, kind := .wrap }⟩

variable {g : Graph}

@[simp] theorem spotAt_id (g : Graph) (id : NodeId) : (g.spotAt id).id = id := rfl

theorem spotAt_node {id : NodeId} {node : Node} (h : g.arena id = some node) :
    (g.spotAt id).node = node := by
  simp [spotAt, h]

theorem spot?_of_arena {id : NodeId} {node : Node} (h : g.arena id = some node) :
    g.spot? id = some (g.spotAt id) := by
  have hn : g.nodes[id]? = some node := h
  simp [spot?, spotAt, arena, hn]

@[simp] theorem readTrack_none (g : Graph) (fuel : Nat) : g.readTrack fuel none = .stop := by
  cases fuel <;> rfl

/-- Reading a level takes its first node off and goes on with what follows it there. -/
theorem readTrack_node {id : NodeId} {node : Node} (h : g.arena id = some node) (fuel : Nat) :
    g.readTrack (fuel + 1) (some id) =
      let rest := g.readTrack fuel node.exit.onLevel
      match node.kind with
      | .terminal | .nonterminal => .symbol (g.spotAt id) rest
      | .epsilon => .epsilon (g.spotAt id) rest
      | .wrap => .wrap (g.spotAt id) rest
      | .optional => .optional (g.spotAt id) (g.readTrack fuel node.sub) rest
      | .iteration => .iteration (g.spotAt id) (g.readTrack fuel node.sub) rest
      | .rerun =>
        .rerun (g.spotAt id) (g.readTrack fuel node.sub) (g.readTrack fuel node.between) rest
      | .alternative => .choice (g.readBranches fuel (g.spotAt id)) rest := by
  have hrest : (if node.escapes then Track.stop else g.readTrack fuel node.next)
      = g.readTrack fuel node.exit.onLevel := by
    unfold Exit.onLevel Node.exit
    split <;> simp
  rw [readTrack, Option.bind_some, spot?_of_arena h]
  simp only [spotAt_node h]
  cases node.kind <;> simp only [hrest]

/-- Reading branches takes the first one off and goes on with the one below it. -/
theorem readBranches_node {id : NodeId} {node : Node} (h : g.arena id = some node) (fuel : Nat) :
    g.readBranches (fuel + 1) (g.spotAt id) =
      match node.down.bind g.spot? with
      | none => .last (g.spotAt id) (g.readTrack fuel node.sub)
      | some below =>
        .more (g.spotAt id) (g.readTrack fuel node.sub) (g.readBranches fuel below) := by
  cases hdown : node.down.bind g.spot? <;>
  · rw [readBranches, spotAt_node h]
    simp only [hdown]

end Graph

mutual

/-- **A level that the walk comes by is the level that is read,** if it is read deep enough. -/
theorem Traced.readTrack_eq {g : Graph} : ∀ {t : Track NodeId} {start : Option NodeId} {fuel : Nat},
    Traced g.arena start t → 2 * t.toList.length ≤ fuel → g.readTrack fuel start = t.map g.spotAt
  | .stop, _, _, h, _ => by
    rw [h, Graph.readTrack_none]
    rfl
  | .symbol id rest, _, fuel, ⟨hi, node, hn, hk, hr⟩, hf => by
    simp only [Track.toList, List.length_cons] at hf
    obtain ⟨fuel, rfl⟩ : ∃ k, fuel = k + 1 := ⟨fuel - 1, by omega⟩
    rw [hi, Graph.readTrack_node hn, hr.readTrack_eq (by omega)]
    cases hkind : node.kind <;> simp_all [NodeKind.isSymbol, Track.map]
  | .epsilon id rest, _, fuel, ⟨hi, node, hn, hk, hr⟩, hf
  | .wrap id rest, _, fuel, ⟨hi, node, hn, hk, hr⟩, hf => by
    simp only [Track.toList, List.length_cons] at hf
    obtain ⟨fuel, rfl⟩ : ∃ k, fuel = k + 1 := ⟨fuel - 1, by omega⟩
    rw [hi, Graph.readTrack_node hn, hr.readTrack_eq (by omega), hk]
    rfl
  | .optional id body rest, _, fuel, ⟨hi, node, hn, hk, hb, hr⟩, hf
  | .iteration id body rest, _, fuel, ⟨hi, node, hn, hk, hb, hr⟩, hf => by
    simp only [Track.toList, List.length_cons, List.length_append] at hf
    obtain ⟨fuel, rfl⟩ : ∃ k, fuel = k + 1 := ⟨fuel - 1, by omega⟩
    rw [hi, Graph.readTrack_node hn, hr.readTrack_eq (by omega), hk]
    simp only [hb.readTrack_eq (show 2 * body.toList.length ≤ fuel by omega)]
    rfl
  | .rerun id body between rest, _, fuel, ⟨hi, node, hn, hk, hb, hw, hr⟩, hf => by
    simp only [Track.toList, List.length_cons, List.length_append] at hf
    obtain ⟨fuel, rfl⟩ : ∃ k, fuel = k + 1 := ⟨fuel - 1, by omega⟩
    rw [hi, Graph.readTrack_node hn, hr.readTrack_eq (by omega), hk]
    simp only [hb.readTrack_eq (show 2 * body.toList.length ≤ fuel by omega),
      hw.readTrack_eq (show 2 * between.toList.length ≤ fuel by omega)]
    rfl
  | .choice branches rest, _, fuel, ⟨node, hn, hb, hr⟩, hf => by
    simp only [Track.toList, List.length_append] at hf
    have hpos : 0 < (Track.branchList branches).length :=
      List.length_pos_of_mem (Track.head_mem_branchList branches)
    obtain ⟨fuel, rfl⟩ : ∃ k, fuel = k + 1 := ⟨fuel - 1, by omega⟩
    obtain ⟨hi, node', hn', hk⟩ := hb.head
    obtain rfl : node' = node := Option.some.inj (hn'.symm.trans hn)
    rw [hi, Graph.readTrack_node hn, hr.readTrack_eq (by omega), hk, hb.readBranches_eq (by omega)]
    rfl

theorem TracedBranches.readBranches_eq {g : Graph} : ∀ {bs : Branches NodeId}
    {start : Option NodeId} {fuel : Nat}, TracedBranches g.arena start bs →
    2 * (Track.branchList bs).length ≤ fuel + 1 →
    g.readBranches fuel (g.spotAt bs.head) = Track.mapBranches g.spotAt bs
  | .last id body, _, fuel, ⟨_, node, hn, _, hd, hb⟩, hf => by
    simp only [Track.branchList, List.length_cons] at hf
    obtain ⟨fuel, rfl⟩ : ∃ k, fuel = k + 1 := ⟨fuel - 1, by omega⟩
    rw [Branches.head, Graph.readBranches_node hn, hd, hb.readTrack_eq (by omega)]
    rfl
  | .more id body others, _, fuel, ⟨_, node, hn, _, hb, ho⟩, hf => by
    have hpos : 0 < (Track.branchList others).length :=
      List.length_pos_of_mem (Track.head_mem_branchList others)
    simp only [Track.branchList, List.length_cons, List.length_append] at hf
    obtain ⟨fuel, rfl⟩ : ∃ k, fuel = k + 1 := ⟨fuel - 1, by omega⟩
    obtain ⟨hdown, below, hbelow, -⟩ := ho.head
    rw [Branches.head, Graph.readBranches_node hn, hdown, hb.readTrack_eq (by omega),
      Option.bind_some, Graph.spot?_of_arena hbelow]
    simp only [ho.readBranches_eq (show 2 * (Track.branchList others).length ≤ fuel + 1 by omega)]
    rfl

end

end Railroad
