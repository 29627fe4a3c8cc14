/-
# What a closed graph promises

A graph of which nothing is known but that its links lead to nodes of it can have cycles and shared
levels.  The check of `Graph.checkClosed` comes to an end on it all the same, and if it finds nothing
wrong, then the walk that everyone takes through the graph comes to an end too: `Graph.Traversed`.

The check visits nodes in the order in which that walk comes by them.  So each course of it that
passes gives a part of the tree of the walk (`Passes.covers`), and as the check visits no node twice
and leaves none out, the tree has every node once.

A walk that is cut off after as many nodes as there are in the graph could hide that it never ends.
`Graph.Uncut` says that it hides nothing: the walk comes by no more nodes when it is given more.
That is a statement about the walks that layouts and drawings really take, and here it is derived
from what the check has seen.
-/
import Railroad.Proofs.Graph.Checked
import Railroad.Proofs.Graph.Levels

namespace Railroad

/-! ## 1. What a passed course covers -/

/-- **A node has what its kind asks for:** a symbol its symbol, and a composite node its level. -/
structure Node.Filled (node : Node) : Prop where
  symbol : node.kind.isSymbol = true → node.symbol.isSome = true
  sub : node.kind.isComposite = true → node.sub.isSome = true

namespace Graph

variable {g : Graph} {c : Course} {visited out : List NodeId}

theorem Passes.filled_owned {id : NodeId} {node : Node}
    (h : g.Passes (.owned id node) visited out) : node.Filled := by
  cases h with
  | plain hs hk => exact ⟨hs, fun hk' => by rw [hk] at hk'; cases hk'⟩
  | body hk hsub | bodyMore hk hsub =>
    refine ⟨fun hs => ?_, fun _ => by rw [hsub]; rfl⟩
    rw [NodeKind.isComposite_of_isSymbol hs] at hk
    cases hk

/-- There is a node that has what its kind asks for. -/
def FilledAt (g : Graph) (id : NodeId) : Prop := ∃ node, g.arena id = some node ∧ node.Filled

theorem filledAt_branch {id sub : NodeId} {node : Node} (hn : g.arena id = some node)
    (hk : node.kind = .alternative) (hsub : node.sub = some sub) : g.FilledAt id := by
  refine ⟨node, hn, fun hs => ?_, fun _ => by rw [hsub]; rfl⟩
  rw [hk] at hs
  cases hs

/-- The nodes that are visited have what their kind asks for. -/
theorem Passes.filled (h : g.Passes c visited out) (hv : ∀ id ∈ visited, g.FilledAt id) :
    ∀ id ∈ out, g.FilledAt id := by
  induction h with
  | plain => exact hv
  | onward hn _ ho _ _ iho ih =>
    exact ih (iho (List.forall_mem_cons.mpr ⟨⟨_, hn, ho.filled_owned⟩, hv⟩))
  | last hn _ ho _ _ iho =>
    exact iho (List.forall_mem_cons.mpr ⟨⟨_, hn, ho.filled_owned⟩, hv⟩)
  | body _ _ _ _ ih => exact ih hv
  | bodyMore _ _ _ _ _ ihb ih => exact ih (ihb hv)
  | branch hn _ hk hsub _ _ ih =>
    exact ih (List.forall_mem_cons.mpr ⟨filledAt_branch hn hk hsub, hv⟩)
  | branchMore hn _ hk hsub _ _ _ ihb ih =>
    exact ih (ihb (List.forall_mem_cons.mpr ⟨filledAt_branch hn hk hsub, hv⟩))

/-- **What a course covers:** the part of the walk that comes by the nodes `new`. -/
def Course.Covers (g : Graph) (new : List NodeId) : Course → Prop
  | .level _ id => ∃ t, Traced g.arena (some id) t ∧ t.toList = new
  | .owned id node => g.arena id = some node → ∀ rest, Traced g.arena node.exit.onLevel rest →
      ∃ t, Traced g.arena (some id) t ∧ t.toList = id :: (new ++ rest.toList)
  | .branches id => ∃ bs, TracedBranches g.arena (some id) bs ∧ Track.branchList bs = new

/-- **A course that passes covers the nodes that it visits,** in the order in which it does. -/
theorem Passes.covers (h : g.Passes c visited out) :
    ∃ new, out = new.reverse ++ visited ∧ c.Covers g new := by
  induction h with
  | onward hn _ _ hnext _ iho ih =>
    obtain ⟨owned, rfl, howned⟩ := iho
    obtain ⟨_, rfl, rest, hrest, rfl⟩ := ih
    obtain ⟨t, ht, hlist⟩ := howned hn rest (hnext ▸ hrest)
    exact ⟨_, by simp [hlist], t, ht, rfl⟩
  | last hn _ _ hnext _ iho =>
    obtain ⟨owned, rfl, howned⟩ := iho
    obtain ⟨t, ht, hlist⟩ := howned hn .stop hnext
    exact ⟨_, by simp [hlist, Track.toList], t, ht, rfl⟩
  | @plain id node _ _ hk =>
    refine ⟨[], rfl, fun hn rest hrest => ?_⟩
    cases hkind : node.kind with
    | terminal | nonterminal =>
      exact ⟨.symbol id rest, ⟨rfl, node, hn, by rw [hkind]; rfl, hrest⟩, rfl⟩
    | epsilon => exact ⟨.epsilon id rest, ⟨rfl, node, hn, hkind, hrest⟩, rfl⟩
    | wrap => exact ⟨.wrap id rest, ⟨rfl, node, hn, hkind, hrest⟩, rfl⟩
    | optional | iteration | rerun | alternative =>
      rw [hkind] at hk
      cases hk
  | @body id sub node _ _ hk hsub _ hmore ih =>
    obtain ⟨_, rfl, body, hbody, rfl⟩ := ih
    rw [← hsub] at hbody
    refine ⟨_, rfl, fun hn rest hrest => ?_⟩
    cases hkind : node.kind with
    | terminal | nonterminal | epsilon | wrap =>
      rw [hkind] at hk
      cases hk
    | optional => exact ⟨.optional id body rest, ⟨rfl, node, hn, hkind, hbody, hrest⟩, rfl⟩
    | iteration => exact ⟨.iteration id body rest, ⟨rfl, node, hn, hkind, hbody, hrest⟩, rfl⟩
    | rerun =>
      have hbetween : node.between = none := by
        cases hb : node.between with
        | none => rfl
        | some between => simp [further, hkind, hb] at hmore
      exact ⟨.rerun id body .stop rest, ⟨rfl, node, hn, hkind, hbody, hbetween, hrest⟩,
        by simp [Track.toList]⟩
    | alternative =>
      have hdown : node.down = none := by
        cases hd : node.down with
        | none => rfl
        | some down => simp [further, hkind, hd] at hmore
      exact ⟨.choice (.last id body) rest,
        ⟨node, hn, ⟨rfl, node, hn, hkind, hdown, hbody⟩, hrest⟩, rfl⟩
  | @bodyMore id sub node _ _ _ more hk hsub _ hmore _ ihb ih =>
    obtain ⟨_, rfl, body, hbody, rfl⟩ := ihb
    obtain ⟨_, rfl, hcovers⟩ := ih
    rw [← hsub] at hbody
    unfold further at hmore
    split at hmore
    case h_1 between hkind hbetween =>
      cases hmore
      obtain ⟨between, htraced, rfl⟩ := hcovers
      rw [← hbetween] at htraced
      refine ⟨body.toList ++ between.toList, by simp, fun hn rest hrest => ?_⟩
      exact ⟨.rerun id body between rest, ⟨rfl, node, hn, hkind, hbody, htraced, hrest⟩, rfl⟩
    case h_2 down hkind hdown =>
      cases hmore
      obtain ⟨others, htraced, rfl⟩ := hcovers
      rw [← hdown] at htraced
      refine ⟨body.toList ++ Track.branchList others, by simp, fun hn rest hrest => ?_⟩
      exact ⟨.choice (.more id body others) rest,
        ⟨node, hn, ⟨rfl, node, hn, hkind, hbody, htraced⟩, hrest⟩, rfl⟩
    case h_3 => cases hmore
  | @branch id _ node _ _ hn _ hk hsub _ hdown ih =>
    obtain ⟨_, rfl, body, hbody, rfl⟩ := ih
    rw [← hsub] at hbody
    exact ⟨id :: body.toList, by simp, .last id body, ⟨rfl, node, hn, hk, hdown, hbody⟩, rfl⟩
  | @branchMore id _ _ node _ _ _ hn _ hk hsub _ hdown _ ihb ih =>
    obtain ⟨_, rfl, body, hbody, rfl⟩ := ihb
    obtain ⟨_, rfl, others, hothers, rfl⟩ := ih
    rw [← hsub] at hbody
    rw [← hdown] at hothers
    exact ⟨id :: (body.toList ++ Track.branchList others), by simp, .more id body others,
      ⟨rfl, node, hn, hk, hbody, hothers⟩, rfl⟩

end Graph

/-! ## 2. Walks that are not cut off -/

section Uncut

variable {g : Graph}

/-- **The walk from `start` is not cut off** after as many nodes as the graph has: it comes by no
more nodes if it is given more.  A walk that is given too few nodes stops where it is, and does not
say so; hence this. -/
def Graph.Uncut (g : Graph) (onward : Node → Option NodeId) (start : Option NodeId) : Prop :=
  ∀ remaining, g.nodes.size ≤ remaining →
    g.walk onward remaining start = g.walk onward g.nodes.size start

theorem Traced.uncut {t : Track NodeId} {start : Option NodeId} (h : Traced g.arena start t)
    (hsize : t.toList.length ≤ g.nodes.size) : g.Uncut (fun node => node.exit.onLevel) start := by
  intro remaining hremaining
  have hchain := Nat.le_trans (Track.length_chain_le t) hsize
  rw [h.walk_eq hchain, h.walk_eq (Nat.le_trans hchain hremaining)]

theorem TracedBranches.uncut {bs : Branches NodeId} {start : Option NodeId}
    (h : TracedBranches g.arena start bs) (hsize : (Track.branchList bs).length ≤ g.nodes.size) :
    g.Uncut (·.down) start := by
  intro remaining hremaining
  have hmarks := Nat.le_trans (Track.length_marks_le bs) hsize
  rw [h.walk_eq hmarks, h.walk_eq (Nat.le_trans hmarks hremaining)]

/-- **No walk into what a node owns is cut off,** nor, if it is a branch, the one down from it. -/
structure Graph.UncutAt (g : Graph) (id : NodeId) (node : Node) : Prop where
  sub : node.kind.isComposite = true → g.Uncut (fun node => node.exit.onLevel) node.sub
  between : node.kind = .rerun → g.Uncut (fun node => node.exit.onLevel) node.between
  down : node.kind = .alternative → g.Uncut (·.down) (some id)

namespace Graph.UncutAt

variable {id : NodeId} {node : Node}

/-- A node that owns nothing has nothing that could be cut off. -/
theorem plain (hk : node.kind.isComposite = false) : g.UncutAt id node where
  sub h := by
    rw [hk] at h
    cases h
  between h := by
    rw [h] at hk
    cases hk
  down h := by
    rw [h] at hk
    cases hk

theorem level (hk : node.kind = .optional ∨ node.kind = .iteration)
    (hsub : g.Uncut (fun node => node.exit.onLevel) node.sub) : g.UncutAt id node where
  sub _ := hsub
  between h := by
    rw [h] at hk
    rcases hk with hk | hk <;> cases hk
  down h := by
    rw [h] at hk
    rcases hk with hk | hk <;> cases hk

theorem rerun (hk : node.kind = .rerun)
    (hsub : g.Uncut (fun node => node.exit.onLevel) node.sub)
    (hbetween : g.Uncut (fun node => node.exit.onLevel) node.between) : g.UncutAt id node where
  sub _ := hsub
  between _ := hbetween
  down h := by
    rw [h] at hk
    cases hk

theorem branch (hk : node.kind = .alternative)
    (hsub : g.Uncut (fun node => node.exit.onLevel) node.sub)
    (hdown : g.Uncut (·.down) (some id)) : g.UncutAt id node where
  sub _ := hsub
  between h := by
    rw [h] at hk
    cases hk
  down _ := hdown

end Graph.UncutAt

mutual

/-- **No walk is cut off** at a node that the walk along a level comes by. -/
theorem Traced.uncutAt : ∀ {t : Track NodeId} {start : Option NodeId}, Traced g.arena start t →
    t.toList.length ≤ g.nodes.size →
    ∀ id ∈ t.toList, ∃ node, g.arena id = some node ∧ g.UncutAt id node
  | .stop, _, _, _ => fun _ hid => absurd hid List.not_mem_nil
  | .symbol id rest, _, ⟨_, node, hn, hk, hr⟩, hsize => by
    simp only [Track.toList, List.length_cons] at hsize
    exact List.forall_mem_cons.mpr
      ⟨⟨node, hn, .plain (NodeKind.isComposite_of_isSymbol hk)⟩, hr.uncutAt (by omega)⟩
  | .epsilon id rest, _, ⟨_, node, hn, hk, hr⟩, hsize
  | .wrap id rest, _, ⟨_, node, hn, hk, hr⟩, hsize => by
    simp only [Track.toList, List.length_cons] at hsize
    exact List.forall_mem_cons.mpr
      ⟨⟨node, hn, .plain (by rw [hk]; rfl)⟩, hr.uncutAt (by omega)⟩
  | .optional id body rest, _, ⟨_, node, hn, hk, hb, hr⟩, hsize
  | .iteration id body rest, _, ⟨_, node, hn, hk, hb, hr⟩, hsize => by
    simp only [Track.toList, List.length_cons, List.length_append] at hsize
    have hbody := hb.uncut (by omega)
    refine List.forall_mem_cons.mpr ⟨⟨node, hn, .level (by simp [hk]) hbody⟩, ?_⟩
    exact List.forall_mem_append.mpr ⟨hb.uncutAt (by omega), hr.uncutAt (by omega)⟩
  | .rerun id body between rest, _, ⟨_, node, hn, hk, hb, hw, hr⟩, hsize => by
    simp only [Track.toList, List.length_cons, List.length_append] at hsize
    have hbody := hb.uncut (by omega)
    have hbetween := hw.uncut (by omega)
    refine List.forall_mem_cons.mpr ⟨⟨node, hn, .rerun hk hbody hbetween⟩, ?_⟩
    refine List.forall_mem_append.mpr ⟨?_, hr.uncutAt (by omega)⟩
    exact List.forall_mem_append.mpr ⟨hb.uncutAt (by omega), hw.uncutAt (by omega)⟩
  | .choice branches rest, _, ⟨_, _, hb, hr⟩, hsize => by
    simp only [Track.toList, List.length_append] at hsize
    exact List.forall_mem_append.mpr ⟨hb.uncutAt (by omega), hr.uncutAt (by omega)⟩

theorem TracedBranches.uncutAt : ∀ {bs : Branches NodeId} {start : Option NodeId},
    TracedBranches g.arena start bs → (Track.branchList bs).length ≤ g.nodes.size →
    ∀ id ∈ Track.branchList bs, ∃ node, g.arena id = some node ∧ g.UncutAt id node
  | .last id body, _, h, hsize => by
    have hdown := h.uncut hsize
    obtain ⟨hi, node, hn, hk, -, hb⟩ := h
    simp only [Track.branchList, List.length_cons] at hsize
    have hbody := hb.uncut (by omega)
    exact List.forall_mem_cons.mpr
      ⟨⟨node, hn, .branch hk hbody (hi ▸ hdown)⟩, hb.uncutAt (by omega)⟩
  | .more id body others, _, h, hsize => by
    have hdown := h.uncut hsize
    obtain ⟨hi, node, hn, hk, hb, ho⟩ := h
    simp only [Track.branchList, List.length_cons, List.length_append] at hsize
    have hbody := hb.uncut (by omega)
    refine List.forall_mem_cons.mpr ⟨⟨node, hn, .branch hk hbody (hi ▸ hdown)⟩, ?_⟩
    exact List.forall_mem_append.mpr ⟨hb.uncutAt (by omega), ho.uncutAt (by omega)⟩

end

end Uncut

/-! ## 3. Graphs that are traversed -/

/-- **The walk that everyone takes through a graph comes to an end,** and `t` is what it comes by.
It has every node once, the branches below the head of an alternation among its branches; what is
read along the links and what is read level by level is this tree; no walk along a level or down an
alternation is cut off; and every node has the symbol or the level that its kind asks for. -/
structure Graph.Traversed (g : Graph) (t : Track NodeId) : Prop where
  traced : Traced g.arena (some g.entry) t
  once : t.toList.Perm (List.range g.nodes.size)
  track_eq : g.track = t.map g.spotAt
  levels_eq : g.levels = t.map g.spotAt
  top_uncut : g.Uncut (fun node => node.exit.onLevel) (some g.entry)
  uncut : ∀ id node, g.arena id = some node → g.UncutAt id node
  filled : ∀ node ∈ g.nodes, node.Filled

namespace Graph

variable {g : Graph}

/-- What the check says of a graph when this has come of its top level. -/
def verdict (g : Graph) : Except Malformed (List NodeId) → Except Malformed Unit
  | .error e => .error e
  | .ok visited =>
    match (List.range g.nodes.size).find? fun id => !visited.contains id with
    | some id => .error (g.malformed id .unreachable)
    | none => .ok ()

theorem checkClosed_eq_verdict (g : Graph) :
    g.checkClosed = g.verdict (g.checkLevel true (3 * g.nodes.size + 2) g.entry []) := rfl

/-- **Something comes of the check** of a graph whose links lead to nodes of it. -/
theorem InRange.comes (hg : g.InRange) : g.Comes (.level true g.entry) []
    (g.checkLevel true (3 * g.nodes.size + 2) g.entry []) := by
  have hunvisited : g.unvisited [] = g.nodes.size := by simp [unvisited]
  have hdepth : g.depth [] (.level true g.entry) ≤ 3 * g.nodes.size + 2 := by
    simp only [depth, hunvisited]
    omega
  have hentry : g.Has (.level true g.entry) := exists_node hg.entry
  exact hg.finds _ _ _ hentry hdepth

/-- **A graph that passes the check is traversed.** -/
theorem Passes.traversed {visited : List NodeId} (h : g.Passes (.level true g.entry) [] visited)
    (hall : ∀ id < g.nodes.size, id ∈ visited) : ∃ t, g.Traversed t := by
  have hnodup := h.nodup List.nodup_nil
  have hfilled := h.filled fun id hid => absurd hid List.not_mem_nil
  obtain ⟨_, rfl, t, ht, rfl⟩ := h.covers
  rw [List.append_nil] at hnodup hfilled hall
  have hmem : ∀ id : Nat, id ∈ t.toList ↔ id < g.nodes.size := by
    intro id
    refine ⟨fun hid => ?_, fun hid => List.mem_reverse.mp (hall id hid)⟩
    obtain ⟨node, hn, -⟩ := hfilled id (List.mem_reverse.mpr hid)
    exact (Array.getElem?_eq_some_iff.mp hn).1
  have honce : t.toList.Perm (List.range g.nodes.size) :=
    (List.perm_ext_iff_of_nodup (List.nodup_reverse.mp hnodup) List.nodup_range).mpr fun id => by
      rw [hmem, List.mem_range]
  have hlength : t.toList.length = g.nodes.size := by
    rw [honce.length_eq, List.length_range]
  refine ⟨t, ht, honce, ?_, ht.levels_eq (Nat.le_of_eq hlength), ht.uncut (Nat.le_of_eq hlength),
    ?_, ?_⟩
  · exact ht.readTrack_eq (Nat.le_of_eq (congrArg (2 * ·) hlength))
  · intro id node hn
    have hid : id < g.nodes.size := (Array.getElem?_eq_some_iff.mp hn).1
    obtain ⟨node', hn', huncut⟩ := ht.uncutAt (Nat.le_of_eq hlength) id ((hmem id).mpr hid)
    obtain rfl : node = node' := Option.some.inj (hn.symm.trans hn')
    exact huncut
  · intro node hnode
    obtain ⟨id, hid, rfl⟩ := Array.mem_iff_getElem.mp hnode
    obtain ⟨node', hn', hnode'⟩ := hfilled id (List.mem_reverse.mpr ((hmem id).mpr hid))
    obtain rfl := Option.some.inj ((Array.getElem?_eq_getElem hid).symm.trans hn')
    exact hnode'

/-- **The closure check is sound.**  On every graph whose links lead to nodes of it, the check comes
to an end with one result, and the check with a bound finds it.  If that says that nothing is wrong,
then the walk that everyone takes through the graph comes to an end, comes by every node once, and
is nowhere cut off.

The graph need not be one that was compiled.  Its links may form any shape, with nodes that are
never reached and levels that run into each other; only links that lead to no node at all are
excluded. -/
theorem checkClosed_sound (hg : g.InRange) :
    (∃ r, g.Comes (.level true g.entry) [] r ∧
      (∀ r', g.Comes (.level true g.entry) [] r' → r' = r) ∧ g.checkClosed = g.verdict r) ∧
    (g.checkClosed = .ok () → ∃ t, g.Traversed t) := by
  have hcomes := hg.comes
  have hunique {r'} (h : g.Comes (.level true g.entry) [] r') := h.unique hcomes
  refine ⟨⟨_, hcomes, fun _ => hunique, g.checkClosed_eq_verdict⟩, fun hclosed => ?_⟩
  rw [checkClosed_eq_verdict] at hclosed
  cases hr : g.checkLevel true (3 * g.nodes.size + 2) g.entry [] with
  | error e =>
    rw [hr] at hclosed
    cases hclosed
  | ok visited =>
    rw [hr] at hclosed hcomes
    refine Passes.traversed hcomes fun id hid => ?_
    rw [verdict] at hclosed
    split at hclosed
    case h_1 => cases hclosed
    case h_2 hnone =>
      have hseen := List.find?_eq_none.mp hnone id (List.mem_range.mpr hid)
      simpa using hseen

/-- An alternation whose second branch leads back to its head, which no walk sees: the graph is
closed and traversed. -/
theorem checkClosed_sound_strayBranch :
    let g : Graph := {
      nodes := #[{ serial := 0, kind := .alternative, down := some 1, sub := some 2 },
        { serial := 1, kind := .alternative, next := some 0, sub := some 3 },
        { serial := 2, kind := .epsilon, escapes := true },
        { serial := 3, kind := .terminal, symbol := some 0, next := some 1, escapes := true }]
      entry := 0 }
    g.InRange ∧ g.checkClosed = .ok () ∧ ∃ t, g.Traversed t := by
  intro g
  have hg : g.InRange := by constructor <;> decide
  have hclosed : g.checkClosed = .ok () := by decide
  exact ⟨hg, hclosed, (checkClosed_sound hg).2 hclosed⟩

end Graph

end Railroad
