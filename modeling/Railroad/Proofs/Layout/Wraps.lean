/-
# Graphs that have got wraps

Breaking a page puts wraps into the graph, and they stay there.  `Wrapped` says what a graph may
have become by that: every node is as it was, but behind a node of the top level that something
follows there may be a wrap, which leads on to where the node led before.

The tree of such a graph is the old one with the wraps in (`Wrapped.hasTree`), and another break
keeps it such a graph (`Wrapped.breakAfterAll`), changing it only if there is no wrap yet
(`Wrapped.breakAfterAll_again`).

The wraps are kept as a function from nodes to the wrap behind them, so that the tree can be written
down at once: it is the old tree with each wrap put where the function says (`Track.withWraps`).
For that the level of a wrap must be the top level, and something must follow it, which is what
breaking rows guarantees.
-/
import Mathlib.Data.List.Nodup
import Railroad.Layout.Break
import Railroad.Proofs.Graph.Linked

namespace Railroad

/-! ## 1. Trees with wraps -/

namespace Track

variable {β : Type}

/-- A level with a wrap before it, or without one. -/
def behind (wrap : Option β) (rest : Track β) : Track β :=
  match wrap with
  | some b => .wrap b rest
  | none => rest

/-- **A level with wraps behind some of its nodes.** -/
def withWraps (w : β → Option β) : Track β → Track β
  | .stop => .stop
  | .symbol b rest => .symbol b (behind (w b) (rest.withWraps w))
  | .epsilon b rest => .epsilon b (behind (w b) (rest.withWraps w))
  | .wrap b rest => .wrap b (behind (w b) (rest.withWraps w))
  | .optional b body rest => .optional b body (behind (w b) (rest.withWraps w))
  | .iteration b body rest => .iteration b body (behind (w b) (rest.withWraps w))
  | .rerun b body between rest => .rerun b body between (behind (w b) (rest.withWraps w))
  | .choice branches rest => .choice branches (behind (w branches.head) (rest.withWraps w))

theorem toList_behind (wrap : Option β) (rest : Track β) :
    (behind wrap rest).toList = wrap.toList ++ rest.toList := by
  cases wrap <;> rfl

/-- Some nodes come before a wrap, and all wraps of the rest are put behind all nodes. -/
theorem perm_behind (first : List β) {wrap rest nodes wraps : List β}
    (h : rest.Perm (nodes ++ wraps)) :
    (first ++ (wrap ++ rest)).Perm (first ++ nodes ++ (wrap ++ wraps)) := by
  rw [List.append_assoc]
  refine List.Perm.append_left first ((h.append_left wrap).trans ?_)
  exact List.perm_append_comm_assoc wrap nodes wraps

theorem filterMap_cons_toList (w : β → Option β) (b : β) (bs : List β) :
    (b :: bs).filterMap w = (w b).toList ++ bs.filterMap w := by
  rw [List.filterMap_cons]
  cases w b <;> rfl

/-- The nodes of a level with wraps are its nodes and the wraps. -/
theorem toList_withWraps (w : β → Option β) : ∀ t : Track β,
    (t.withWraps w).toList.Perm (t.toList ++ t.chain.filterMap w)
  | .stop => .nil
  | .symbol b rest | .epsilon b rest | .wrap b rest => by
    rw [withWraps, toList, toList_behind, chain, filterMap_cons_toList]
    exact perm_behind [b] (toList_withWraps w rest)
  | .optional b body rest | .iteration b body rest => by
    rw [withWraps, toList, toList_behind, chain, filterMap_cons_toList]
    exact perm_behind (b :: body.toList) (toList_withWraps w rest)
  | .choice branches rest => by
    rw [withWraps, toList, toList_behind, chain, filterMap_cons_toList]
    exact perm_behind _ (toList_withWraps w rest)
  | .rerun b body between rest => by
    rw [withWraps, toList, toList_behind, chain, filterMap_cons_toList]
    exact perm_behind (b :: (body.toList ++ between.toList)) (toList_withWraps w rest)

@[simp] theorem inner_behind (wrap : Option β) (rest : Track β) :
    (behind wrap rest).inner = rest.inner := by
  cases wrap <;> rfl

/-- The levels inside have no wraps put into. -/
theorem inner_withWraps (w : β → Option β) (t : Track β) :
    (t.withWraps w).inner = t.inner := by
  cases t with
  | stop => rfl
  | symbol _ rest | epsilon _ rest | wrap _ rest | optional _ _ rest | iteration _ _ rest
  | rerun _ _ _ rest | choice _ rest =>
    rw [withWraps, inner, inner, inner_behind, inner_withWraps w rest]

end Track

/-! ## 2. Graphs without wraps -/

mutual

/-- Where no wrap is in the tree, no node is one. -/
theorem Linked.kind_ne_wrap {ends : Exit → Exit → Prop} {arena : Arena} :
    ∀ {t : Track NodeId} {leaves into : Exit}, Linked ends arena leaves into t → t.WrapFree →
    ∀ id ∈ t.toList, ∀ x, arena id = some x → x.kind ≠ .wrap
  | .stop, _, _, _, _, id, hid, _, _ => absurd hid List.not_mem_nil
  | .symbol _ _, _, _, ⟨_, node, hn, hk, _, hr⟩, hfree, id, hid, x, hx => by
    rcases List.mem_cons.mp hid with rfl | hid
    · rw [← Option.some.inj (hn.symm.trans hx)]
      intro hwrap
      rw [hwrap] at hk
      exact absurd hk (by decide)
    · exact hr.kind_ne_wrap hfree id hid x hx
  | .epsilon _ _, _, _, ⟨_, node, hn, hk, hr⟩, hfree, id, hid, x, hx => by
    rcases List.mem_cons.mp hid with rfl | hid
    · rw [← Option.some.inj (hn.symm.trans hx), hk]
      decide
    · exact hr.kind_ne_wrap hfree id hid x hx
  | .wrap _ _, _, _, _, hfree, _, _, _, _ => hfree.elim
  | .optional _ _ _, _, _, ⟨_, node, hn, hk, hb, hr⟩, ⟨hfb, hfr⟩, id, hid, x, hx
  | .iteration _ _ _, _, _, ⟨_, node, hn, hk, hb, hr⟩, ⟨hfb, hfr⟩, id, hid, x, hx => by
    simp only [Track.toList, List.mem_cons, List.mem_append] at hid
    rcases hid with rfl | hid | hid
    · rw [← Option.some.inj (hn.symm.trans hx), hk]
      decide
    · exact hb.kind_ne_wrap hfb id hid x hx
    · exact hr.kind_ne_wrap hfr id hid x hx
  | .rerun _ _ _ _, _, _, ⟨_, node, hn, hk, hb, hw, hr⟩, ⟨hfb, hfw, hfr⟩, id, hid, x, hx => by
    simp only [Track.toList, List.mem_cons, List.mem_append] at hid
    rcases hid with rfl | (hid | hid) | hid
    · rw [← Option.some.inj (hn.symm.trans hx), hk]
      decide
    · exact hb.kind_ne_wrap hfb id hid x hx
    · exact hw.kind_ne_wrap hfw id hid x hx
    · exact hr.kind_ne_wrap hfr id hid x hx
  | .choice _ _, _, _, ⟨_, _, _, hb, _, hr⟩, ⟨hfb, hfr⟩, id, hid, x, hx => by
    rcases List.mem_append.mp hid with hid | hid
    · exact hb.kind_ne_wrap hfb id hid x hx
    · exact hr.kind_ne_wrap hfr id hid x hx

theorem LinkedBranches.kind_ne_wrap {ends : Exit → Exit → Prop} {arena : Arena} :
    ∀ {bs : Branches NodeId} {leaves : Exit} {start : Option NodeId},
    LinkedBranches ends arena leaves start bs → Track.BranchesWrapFree bs →
    ∀ id ∈ Track.branchList bs, ∀ x, arena id = some x → x.kind ≠ .wrap
  | .last _ _, _, _, ⟨_, node, hn, hk, _, hb⟩, hfree, id, hid, x, hx => by
    rcases List.mem_cons.mp hid with rfl | hid
    · rw [← Option.some.inj (hn.symm.trans hx), hk]
      decide
    · exact hb.kind_ne_wrap hfree id hid x hx
  | .more _ _ _, _, _, ⟨_, node, hn, hk, hb, ho⟩, ⟨hfb, hfo⟩, id, hid, x, hx => by
    simp only [Track.branchList, List.mem_cons, List.mem_append] at hid
    rcases hid with rfl | hid | hid
    · rw [← Option.some.inj (hn.symm.trans hx), hk]
      decide
    · exact hb.kind_ne_wrap hfb id hid x hx
    · exact ho.kind_ne_wrap hfo id hid x hx

end

/-- Where a link leads, if it leads anywhere, there is a node. -/
def Arena.Reaches (arena : Arena) (next : Option NodeId) : Prop :=
  ∀ x, next = some x → ∃ y, arena x = some y

/-- A level is entered at a node, and if there is none, where the level as a whole leads. -/
theorem Linked.reaches_into {arena : Arena} {t : Track NodeId} {leaves into : Exit}
    (h : Linked Eq arena leaves into t) (hl : arena.Reaches leaves.next) :
    arena.Reaches into.next := by
  cases t with
  | stop =>
    obtain rfl : leaves = into := h
    exact hl
  | _ =>
    obtain ⟨rfl, node, hn, -⟩ := h
    intro x hx
    exact ⟨node, Option.some.inj hx ▸ hn⟩

mutual

/-- **No link leads out of the arena** if those out of a level do not. -/
theorem Linked.reaches {arena : Arena} : ∀ {t : Track NodeId} {leaves into : Exit},
    Linked Eq arena leaves into t → arena.Reaches leaves.next →
    ∀ id ∈ t.toList, ∀ x, arena id = some x → arena.Reaches x.next
  | .stop, _, _, _, _, id, hid, _, _ => absurd hid List.not_mem_nil
  | .symbol _ _, _, _, ⟨_, node, hn, _, _, hr⟩, hl, id, hid, x, hx
  | .epsilon _ _, _, _, ⟨_, node, hn, _, hr⟩, hl, id, hid, x, hx
  | .wrap _ _, _, _, ⟨_, node, hn, _, hr⟩, hl, id, hid, x, hx => by
    rcases List.mem_cons.mp hid with rfl | hid
    · exact Option.some.inj (hn.symm.trans hx) ▸ hr.reaches_into hl
    · exact hr.reaches hl id hid x hx
  | .optional _ _ _, _, _, ⟨_, node, hn, _, hb, hr⟩, hl, id, hid, x, hx => by
    have hnext : arena.Reaches node.next := hr.reaches_into hl
    simp only [Track.toList, List.mem_cons, List.mem_append] at hid
    rcases hid with rfl | hid | hid
    · exact Option.some.inj (hn.symm.trans hx) ▸ hnext
    · exact hb.reaches hnext id hid x hx
    · exact hr.reaches hl id hid x hx
  | .iteration here _ _, _, _, ⟨_, node, hn, _, hb, hr⟩, hl, id, hid, x, hx => by
    have hhere : arena.Reaches (some here) := fun y hy => ⟨node, Option.some.inj hy ▸ hn⟩
    simp only [Track.toList, List.mem_cons, List.mem_append] at hid
    rcases hid with rfl | hid | hid
    · exact Option.some.inj (hn.symm.trans hx) ▸ hr.reaches_into hl
    · exact hb.reaches hhere id hid x hx
    · exact hr.reaches hl id hid x hx
  | .rerun here _ _ _, _, _, ⟨_, node, hn, _, hb, hw, hr⟩, hl, id, hid, x, hx => by
    have hhere : arena.Reaches (some here) := fun y hy => ⟨node, Option.some.inj hy ▸ hn⟩
    have hback : arena.Reaches (Exit.wayBack here node.between).next := by
      unfold Exit.wayBack
      split
      · exact hhere
      · exact fun y hy => absurd hy (by simp [Exit.along])
    simp only [Track.toList, List.mem_cons, List.mem_append] at hid
    rcases hid with rfl | (hid | hid) | hid
    · exact Option.some.inj (hn.symm.trans hx) ▸ hr.reaches_into hl
    · exact hb.reaches hhere id hid x hx
    · exact hw.reaches hback id hid x hx
    · exact hr.reaches hl id hid x hx
  | .choice branches _, _, _, ⟨_, node, hn, hb, hm, hr⟩, hl, id, hid, x, hx => by
    have hnext : arena.Reaches node.next := hr.reaches_into hl
    rcases List.mem_append.mp hid with hid | hid
    · refine hb.reaches hnext (fun mark hmark m hmarked => ?_) id hid x hx
      rw [Track.marks_eq_head_cons] at hmark
      rcases List.mem_cons.mp hmark with rfl | hmark
      · exact Option.some.inj (hn.symm.trans hmarked) ▸ hnext
      · obtain ⟨below, hbelow, hexit⟩ := hm mark hmark
        obtain rfl := Option.some.inj (hbelow.symm.trans hmarked)
        have hsame : node.next = below.next := congrArg Exit.next hexit
        exact hsame ▸ hnext
    · exact hr.reaches hl id hid x hx

theorem LinkedBranches.reaches {arena : Arena} : ∀ {bs : Branches NodeId} {leaves : Exit}
    {start : Option NodeId}, LinkedBranches Eq arena leaves start bs → arena.Reaches leaves.next →
    (∀ mark ∈ bs.marks, ∀ x, arena mark = some x → arena.Reaches x.next) →
    ∀ id ∈ Track.branchList bs, ∀ x, arena id = some x → arena.Reaches x.next
  | .last _ _, _, _, ⟨_, node, hn, _, _, hb⟩, hl, hm, id, hid, x, hx => by
    rcases List.mem_cons.mp hid with rfl | hid
    · exact hm id List.mem_cons_self x hx
    · exact hb.reaches hl id hid x hx
  | .more _ _ _, _, _, ⟨_, node, hn, _, hb, ho⟩, hl, hm, id, hid, x, hx => by
    simp only [Track.branchList, List.mem_cons, List.mem_append] at hid
    rcases hid with rfl | hid | hid
    · exact hm id List.mem_cons_self x hx
    · exact hb.reaches hl id hid x hx
    · exact ho.reaches hl (fun mark hmark => hm mark (List.mem_cons_of_mem _ hmark)) id hid x hx

end

/-! ## 3. Levels that lead elsewhere -/

mutual

/-- A level leads wherever its last link is as good as it was. -/
theorem Linked.redirect {ends : Exit → Exit → Prop} {arena : Arena} {leaves leaves' : Exit}
    (hends : ∀ e, ends leaves e → ends leaves' e) : ∀ {t : Track NodeId} {into : Exit},
    Linked ends arena leaves into t → Linked ends arena leaves' into t
  | .stop, _, h => hends _ h
  | .symbol _ _, _, ⟨hi, node, hn, hk, hs, hr⟩ => ⟨hi, node, hn, hk, hs, hr.redirect hends⟩
  | .epsilon _ _, _, ⟨hi, node, hn, hk, hr⟩ => ⟨hi, node, hn, hk, hr.redirect hends⟩
  | .wrap _ _, _, ⟨hi, node, hn, hk, hr⟩ => ⟨hi, node, hn, hk, hr.redirect hends⟩
  | .optional _ _ _, _, ⟨hi, node, hn, hk, hb, hr⟩ => ⟨hi, node, hn, hk, hb, hr.redirect hends⟩
  | .iteration _ _ _, _, ⟨hi, node, hn, hk, hb, hr⟩ => ⟨hi, node, hn, hk, hb, hr.redirect hends⟩
  | .rerun _ _ _ _, _, ⟨hi, node, hn, hk, hb, hw, hr⟩ =>
    ⟨hi, node, hn, hk, hb, hw, hr.redirect hends⟩
  | .choice _ _, _, ⟨hi, node, hn, hb, hm, hr⟩ => ⟨hi, node, hn, hb, hm, hr.redirect hends⟩

theorem LinkedBranches.redirect {ends : Exit → Exit → Prop} {arena : Arena} {leaves leaves' : Exit}
    (hends : ∀ e, ends leaves e → ends leaves' e) : ∀ {bs : Branches NodeId} {start : Option NodeId},
    LinkedBranches ends arena leaves start bs → LinkedBranches ends arena leaves' start bs
  | .last _ _, _, ⟨hi, node, hn, hk, hd, hb⟩ => ⟨hi, node, hn, hk, hd, hb.redirect hends⟩
  | .more _ _ _, _, ⟨hi, node, hn, hk, hb, ho⟩ =>
    ⟨hi, node, hn, hk, hb.redirect hends, ho.redirect hends⟩

end

/-- It makes no difference where a link that escapes leads. -/
theorem Exit.Similar.out {next next' : Option NodeId} {e : Exit} (h : Exit.Similar (.out next) e) :
    Exit.Similar (.out next') e :=
  ⟨h.1, fun hf => absurd hf (by simp [Exit.out])⟩

/-- A level that leads out of itself is behind links that stay on it. -/
theorem Linked.stays {arena : Arena} {t : Track NodeId} {leaves into : Exit}
    (h : Linked Eq arena leaves into t) (hl : leaves.escapes = false) : into.escapes = false := by
  cases t with
  | stop =>
    obtain rfl : leaves = into := h
    exact hl
  | _ =>
    obtain ⟨rfl, -⟩ := h
    rfl

/-- A level of a compiled graph, in an arena with the same nodes, where it may lead elsewhere. -/
theorem Linked.reframed {arena arena' : Arena} {t : Track NodeId} {next next' : Option NodeId}
    {into : Exit} (h : Linked Eq arena (.out next) into t)
    (hsame : ∀ id ∈ t.toList, arena' id = arena id) :
    Linked Exit.Similar arena' (.out next') into t :=
  ((h.mono fun _ _ => Exit.Similar.of_eq).congr hsame).redirect fun _ => Exit.Similar.out

/-! ## 4. Graphs with wraps -/

/-- A node with a wrap behind it, or without one. -/
def Node.before (node : Node) (wrap : Option NodeId) : Node :=
  match wrap with
  | some v => node.link (some v) false
  | none => node

namespace Node

variable (node : Node) (wrap : Option NodeId)

@[simp] theorem kind_before : (node.before wrap).kind = node.kind := by
  cases wrap <;> rfl

@[simp] theorem symbol_before : (node.before wrap).symbol = node.symbol := by
  cases wrap <;> rfl

@[simp] theorem sub_before : (node.before wrap).sub = node.sub := by
  cases wrap <;> rfl

@[simp] theorem between_before : (node.before wrap).between = node.between := by
  cases wrap <;> rfl

@[simp] theorem down_before : (node.before wrap).down = node.down := by
  cases wrap <;> rfl

end Node

/-- **A compiled graph:** it has a tree without wraps.  Layouts start from one, and add wraps and
nothing else. -/
structure Graph.Bare (g : Graph) (t : Track NodeId) : Prop extends g.HasTree Eq t where
  wrapFree : t.WrapFree

namespace Graph.Bare

variable {g : Graph} {t : Track NodeId}

/-- No node of a compiled graph is a wrap. -/
theorem kind_ne_wrap (h : g.Bare t) {id : NodeId} {node : Node} (hn : g.arena id = some node) :
    node.kind ≠ .wrap :=
  have hid := (h.mem_iff id).mpr (Array.getElem?_eq_some_iff.mp hn).1
  h.linked.kind_ne_wrap h.wrapFree id hid node hn

/-- A link of a compiled graph leads to one of its nodes. -/
theorem node_of_next (h : g.Bare t) {id next : NodeId} {node : Node} (hn : g.arena id = some node)
    (hnext : node.next = some next) : ∃ after, g.arena next = some after := by
  have hnowhere : g.arena.Reaches (Exit.along none).next := by
    intro x hx
    exact absurd hx (by simp [Exit.along])
  have hid := (h.mem_iff id).mpr (Array.getElem?_eq_some_iff.mp hn).1
  exact h.linked.reaches hnowhere id hid node hn next hnext

end Graph.Bare

/-- A node of the top level that something follows. -/
def Graph.Followed (g : Graph) (t : Track NodeId) (id : NodeId) : Prop :=
  id ∈ t.chain ∧ ∃ node, g.arena id = some node ∧ node.next.isSome = true

/-- **What a graph may have become by breaking its page:** `w` are the wraps by the nodes they stand
behind.  Any number of layouts leaves it so, with more wraps. -/
structure Wrapped (g₀ : Graph) (t₀ : Track NodeId) (g : Graph) (w : NodeId → Option NodeId) :
    Prop where
  entry : g.entry = g₀.entry
  size_le : g₀.nodes.size ≤ g.nodes.size
  node : ∀ id : Nat, id < g₀.nodes.size → g.arena id = (g₀.arena id).map (·.before (w id))
  owner : ∀ id v, w id = some v → g₀.Followed t₀ id
  place : ∀ (id : NodeId) (v : Nat), w id = some v → g₀.nodes.size ≤ v ∧ v < g.nodes.size
  wrap : ∀ id v node, w id = some v → g₀.arena id = some node →
    ∃ wrap, g.arena v = some wrap ∧ wrap.kind = .wrap ∧ wrap.exit = .along node.next
  owned : ∀ v : Nat, g₀.nodes.size ≤ v → v < g.nodes.size → ∃ id, w id = some v
  inj : ∀ a b v, w a = some v → w b = some v → a = b

namespace Wrapped

variable {g₀ g : Graph} {t₀ : Track NodeId} {w : NodeId → Option NodeId}

/-- A graph that no wraps were put into. -/
theorem refl (g : Graph) (t : Track NodeId) : Wrapped g t g fun _ => none where
  entry := rfl
  size_le := Nat.le_refl _
  node id _ := (Option.map_id_fun' ▸ rfl : g.arena id = (g.arena id).map fun node => node)
  owner _ _ h := absurd h (by simp)
  place _ _ h := absurd h (by simp)
  wrap _ _ _ h := absurd h (by simp)
  owned v h h' := absurd h (Nat.not_le.mpr h')
  inj _ _ _ h := absurd h (by simp)

theorem arena_eq (h : Wrapped g₀ t₀ g w) {id : NodeId} {node : Node}
    (hn : g₀.arena id = some node) :
    g.arena id = some (node.before (w id)) := by
  rw [h.node id (Array.getElem?_eq_some_iff.mp hn).1, hn]
  rfl

/-- A node and the wrap behind it lead on to where the node led before. -/
theorem linked_behind (h : Wrapped g₀ t₀ g w) {id : NodeId} {node : Node} {leaves : Exit}
    {rest : Track NodeId} (hn : g₀.arena id = some node) (hstays : node.escapes = false)
    (hr : Linked Exit.Similar g.arena leaves node.exit rest) :
    Linked Exit.Similar g.arena leaves (node.before (w id)).exit (Track.behind (w id) rest) := by
  cases hw : w id with
  | none => exact hr
  | some v =>
    obtain ⟨wrap, hwrap, hk, hexit⟩ := h.wrap id v node hw hn
    have hsame : wrap.exit = node.exit := by
      rw [hexit, Exit.along, ← hstays]
      rfl
    exact ⟨rfl, wrap, hwrap, hk, hsame ▸ hr⟩

/-- The branches of an alternation with a wrap behind its head are as they were. -/
theorem linkedBranches (h : Wrapped g₀ t₀ g w) {bs : Branches NodeId} {node : Node}
    {next next' : Option NodeId} (hn : g₀.arena bs.head = some node)
    (hb : LinkedBranches Eq g₀.arena (.out next) (some bs.head) bs)
    (hsame : ∀ id ∈ Track.nestedBranches bs, g.arena id = g₀.arena id) :
    LinkedBranches Exit.Similar g.arena (.out next') (some bs.head) bs := by
  have hnode := h.arena_eq hn
  cases bs with
  | last id body =>
    obtain ⟨hi, node', hn', hk, hd, hbody⟩ := hb
    obtain rfl := Option.some.inj (hn.symm.trans hn')
    refine ⟨hi, _, hnode, ?_, ?_, ?_⟩
    · rwa [Node.kind_before]
    · rwa [Node.down_before]
    · rw [Node.sub_before]
      exact hbody.reframed hsame
  | more id body others =>
    obtain ⟨hi, node', hn', hk, hbody, ho⟩ := hb
    obtain rfl := Option.some.inj (hn.symm.trans hn')
    refine ⟨hi, _, hnode, ?_, ?_, ?_⟩
    · rwa [Node.kind_before]
    · rw [Node.sub_before]
      exact hbody.reframed fun x hx => hsame x (List.mem_append_left _ hx)
    · rw [Node.down_before]
      have hsimilar := (ho.mono fun _ _ => Exit.Similar.of_eq).congr fun x hx =>
        hsame x (List.mem_append_right _ hx)
      exact hsimilar.redirect fun _ => Exit.Similar.out

/-- **The links of a graph with wraps** run along the level with the wraps in. -/
theorem linked (h : Wrapped g₀ t₀ g w) : ∀ {t : Track NodeId} {leaves into : Exit},
    Linked Eq g₀.arena leaves into t → leaves.escapes = false →
    (∀ id ∈ t.nested, g.arena id = g₀.arena id) →
    Linked Exit.Similar g.arena leaves into (t.withWraps w)
  | .stop, leaves, _, ht, _, _ => by
    obtain rfl := (ht : leaves = _)
    exact Exit.Similar.refl leaves
  | .symbol id _, _, _, ⟨hi, node, hn, hk, hs, hr⟩, hl, hsame => by
    refine ⟨hi, node.before (w id), h.arena_eq hn, ?_, ?_, ?_⟩
    · rwa [Node.kind_before]
    · rwa [Node.symbol_before]
    · exact h.linked_behind hn (hr.stays hl) (h.linked hr hl hsame)
  | .epsilon id _, _, _, ⟨hi, node, hn, hk, hr⟩, hl, hsame
  | .wrap id _, _, _, ⟨hi, node, hn, hk, hr⟩, hl, hsame => by
    refine ⟨hi, node.before (w id), h.arena_eq hn, ?_, ?_⟩
    · rwa [Node.kind_before]
    · exact h.linked_behind hn (hr.stays hl) (h.linked hr hl hsame)
  | .optional id _ _, _, _, ⟨hi, node, hn, hk, hb, hr⟩, hl, hsame => by
    refine ⟨hi, node.before (w id), h.arena_eq hn, ?_, ?_, ?_⟩
    · rwa [Node.kind_before]
    · rw [Node.sub_before]
      exact hb.reframed fun x hx => hsame x (List.mem_append_left _ hx)
    · exact h.linked_behind hn (hr.stays hl)
        (h.linked hr hl fun x hx => hsame x (List.mem_append_right _ hx))
  | .iteration id _ _, _, _, ⟨hi, node, hn, hk, hb, hr⟩, hl, hsame => by
    refine ⟨hi, node.before (w id), h.arena_eq hn, ?_, ?_, ?_⟩
    · rwa [Node.kind_before]
    · rw [Node.sub_before]
      exact hb.reframed fun x hx => hsame x (List.mem_append_left _ hx)
    · exact h.linked_behind hn (hr.stays hl)
        (h.linked hr hl fun x hx => hsame x (List.mem_append_right _ hx))
  | .rerun id body between rest, _, _, ⟨hi, node, hn, hk, hb, hw, hr⟩, hl, hsame => by
    simp only [Track.nested, List.mem_append] at hsame
    refine ⟨hi, node.before (w id), h.arena_eq hn, ?_, ?_, ?_, ?_⟩
    · rwa [Node.kind_before]
    · rw [Node.sub_before]
      exact hb.reframed fun x hx => hsame x (.inl (.inl hx))
    · rw [Node.between_before]
      exact (hw.mono fun _ _ => Exit.Similar.of_eq).congr fun x hx => hsame x (.inl (.inr hx))
    · exact h.linked_behind hn (hr.stays hl) (h.linked hr hl fun x hx => hsame x (.inr hx))
  | .choice branches rest, _, _, ⟨hi, node, hn, hb, hm, hr⟩, hl, hsame => by
    refine ⟨hi, node.before (w branches.head), h.arena_eq hn, ?_, ?_, ?_⟩
    · exact h.linkedBranches hn hb fun x hx => hsame x (List.mem_append_left _ hx)
    · intro id hid
      obtain ⟨below, hbelow, hexit⟩ := hm id hid
      have hmem := Track.mem_nestedBranches_of_mem_tail branches hid
      rw [hsame id (List.mem_append_left _ hmem)]
      exact ⟨below, hbelow, (Exit.Similar.of_eq hexit).out⟩
    · exact h.linked_behind hn (hr.stays hl)
        (h.linked hr hl fun x hx => hsame x (List.mem_append_right _ hx))

/-- Only nodes of the top level have a wrap behind them. -/
theorem eq_none_of_nested (hbare : g₀.Bare t₀) (h : Wrapped g₀ t₀ g w) {id : NodeId}
    (hid : id ∈ t₀.nested) : w id = none := by
  cases hw : w id with
  | none => rfl
  | some v =>
    have hnodup := (Track.toList_perm t₀).nodup_iff.mp hbare.nodup
    exact absurd rfl ((List.nodup_append.mp hnodup).2.2 id (h.owner id v hw).1 id hid)

/-- **The tree of a graph with wraps** is the old one with the wraps in. -/
theorem hasTree (hbare : g₀.Bare t₀) (h : Wrapped g₀ t₀ g w) :
    g.HasTree Exit.Similar (t₀.withWraps w) := by
  have hperm := Track.toList_withWraps w t₀
  have hwraps : ∀ v : Nat, v ∈ t₀.chain.filterMap w → g₀.nodes.size ≤ v ∧ v < g.nodes.size := by
    intro v hv
    obtain ⟨id, -, hw⟩ := List.mem_filterMap.mp hv
    exact h.place id v hw
  constructor
  case linked =>
    rw [h.entry]
    refine h.linked hbare.linked rfl fun id hid => ?_
    have hmem : id ∈ t₀.toList := (Track.toList_perm t₀).mem_iff.mpr (List.mem_append_right _ hid)
    obtain ⟨node, hn⟩ := hbare.node_of_mem hmem
    rw [h.arena_eq hn, h.eq_none_of_nested hbare hid, hn]
    rfl
  case nodup =>
    rw [hperm.nodup_iff, List.nodup_append]
    refine ⟨hbare.nodup, ?_, ?_⟩
    · exact (Track.chain_nodup hbare.nodup).filterMap fun a b v ha hb => h.inj a b v ha hb
    · rintro a ha v hv rfl
      exact Nat.not_lt.mpr (hwraps a hv).1 ((hbare.mem_iff a).mp ha)
  case mem_iff =>
    intro id
    rw [hperm.mem_iff, List.mem_append, hbare.mem_iff]
    constructor
    · rintro (hid | hid)
      · exact Nat.lt_of_lt_of_le hid h.size_le
      · exact (hwraps id hid).2
    · intro hid
      rcases Nat.lt_or_ge id g₀.nodes.size with hlt | hge
      · exact .inl hlt
      · obtain ⟨owner, hw⟩ := h.owned id hge hid
        exact .inr (List.mem_filterMap.mpr ⟨owner, (h.owner owner id hw).1, hw⟩)

/-! ## 5. Another break -/

/-- A wrap is found by the node it stands behind. -/
theorem wrapBehind?_of_some (h : Wrapped g₀ t₀ g w) {id v : NodeId} (hw : w id = some v) :
    g.wrapBehind? id = some v := by
  obtain ⟨-, node, hn, -⟩ := h.owner id v hw
  obtain ⟨wrap, hwrap, hk, -⟩ := h.wrap id v node hw hn
  have hid : g.nodes[id]? = some (node.link (some v) false) := by
    have := h.arena_eq hn
    rwa [hw] at this
  have hv : g.nodes[v]? = some wrap := hwrap
  simp [Graph.wrapBehind?, hid, hv, hk, Node.link]

/-- Where no wrap was put there is none. -/
theorem wrapBehind?_of_none (hbare : g₀.Bare t₀) (h : Wrapped g₀ t₀ g w) {id : NodeId}
    (hid : id ∈ t₀.toList) (hw : w id = none) : g.wrapBehind? id = none := by
  obtain ⟨node, hn⟩ := hbare.node_of_mem hid
  have hat : g.nodes[id]? = some node := by
    have := h.arena_eq hn
    rwa [hw] at this
  cases hnext : node.next with
  | none => simp [Graph.wrapBehind?, hat, hnext]
  | some next =>
    obtain ⟨after, hafter⟩ := hbare.node_of_next hn hnext
    have hkind := hbare.kind_ne_wrap hafter
    have hafter' : g.nodes[next]? = some (after.before (w next)) := h.arena_eq hafter
    simp [Graph.wrapBehind?, hat, hnext, hafter', hkind]

/-- A new wrap is the last node, and the node before it leads to it. -/
theorem arena_insertWrap {id : Nat} (hid : id < g.nodes.size) (x : Nat) :
    (g.insertWrap id).arena x =
      if x = g.nodes.size then
        some { serial := g.nextSerial, kind := .wrap, next := (g.nodes[id]?).bind (·.next) }
      else (g.arena x).map fun node =>
        if x = id then node.link (some g.nodes.size) false else node := by
  simp only [Graph.arena, Graph.insertWrap, Graph.modify, Array.getElem?_modify, Array.getElem?_push]
  by_cases hx : x = g.nodes.size
  · subst hx
    rw [if_neg (Nat.ne_of_lt hid), if_pos rfl, if_pos rfl]
  · rw [if_neg hx, if_neg hx]
    by_cases h : id = x
    · subst h
      simp
    · simp [h, Ne.symm h]

theorem nodes_size_insertWrap (g : Graph) (id : NodeId) :
    (g.insertWrap id).nodes.size = g.nodes.size + 1 := by
  simp [Graph.insertWrap, Graph.modify]

/-- **A wrap is put behind a node that has none.** -/
theorem insert (h : Wrapped g₀ t₀ g w) {id : Nat} (hw : w id = none) (hid : g₀.Followed t₀ id) :
    Wrapped g₀ t₀ (g.insertWrap id) fun x => if x = id then some g.nodes.size else w x := by
  obtain ⟨hchain, node, hn, hnext⟩ := hid
  have hlt₀ : id < g₀.nodes.size := (Array.getElem?_eq_some_iff.mp hn).1
  have hlt : id < g.nodes.size := Nat.lt_of_lt_of_le hlt₀ h.size_le
  have hat : g.arena id = some node := by
    have := h.arena_eq hn
    rwa [hw] at this
  have harena := arena_insertWrap hlt
  have hsize := nodes_size_insertWrap g id
  constructor
  case entry => exact h.entry
  case size_le => exact Nat.le_trans h.size_le (by omega)
  case node =>
    intro x hx
    have hne : x ≠ g.nodes.size := Nat.ne_of_lt (Nat.lt_of_lt_of_le hx h.size_le)
    rw [harena, if_neg hne]
    by_cases hxid : x = id
    · subst hxid
      rw [hat, hn]
      simp [Node.before]
    · simp only [hxid, if_false]
      rw [h.node x hx, Option.map_map]
      rfl
  case owner =>
    intro x v hv
    by_cases hxid : x = id
    · exact hxid ▸ ⟨hchain, node, hn, hnext⟩
    · exact h.owner x v (by simpa [hxid] using hv)
  case place =>
    intro x v hv
    by_cases hxid : x = id
    · obtain rfl : g.nodes.size = v := by simpa [hxid] using hv
      exact ⟨h.size_le, by omega⟩
    · obtain ⟨hle, hvlt⟩ := h.place x v (by simpa [hxid] using hv)
      exact ⟨hle, by omega⟩
  case wrap =>
    intro x v n hv hx
    by_cases hxid : x = id
    · obtain rfl : g.nodes.size = v := by simpa [hxid] using hv
      obtain rfl := Option.some.inj (hn.symm.trans (hxid ▸ hx))
      refine ⟨_, by rw [harena, if_pos rfl], rfl, ?_⟩
      have hnode : g.nodes[id]? = some node := hat
      rw [hnode]
      rfl
    · have hv' : w x = some v := by simpa [hxid] using hv
      obtain ⟨wrap, hwrap, hk, hexit⟩ := h.wrap x v n hv' hx
      obtain ⟨hle, hvlt⟩ := h.place x v hv'
      have hne : v ≠ id := fun heq => Nat.not_lt.mpr hle (heq ▸ hlt₀)
      refine ⟨wrap, ?_, hk, hexit⟩
      rw [harena, if_neg (Nat.ne_of_lt hvlt), hwrap]
      simp [hne]
  case owned =>
    intro v hle hvlt
    by_cases hv : v = g.nodes.size
    · exact ⟨id, by simp [hv]⟩
    · obtain ⟨x, hx⟩ := h.owned v hle (by omega)
      refine ⟨x, ?_⟩
      have hne : x ≠ id := by
        rintro rfl
        exact absurd (hw.symm.trans hx) (by simp)
      simpa [hne] using hx
  case inj =>
    intro a b v ha hb
    have hnew : ∀ x, w x ≠ some g.nodes.size := fun x hx => Nat.lt_irrefl _ (h.place x _ hx).2
    by_cases haid : a = id <;> by_cases hbid : b = id
    · exact haid.trans hbid.symm
    · obtain rfl : g.nodes.size = v := by simpa [haid] using ha
      exact absurd (by simpa [hbid] using hb) (hnew b)
    · obtain rfl : g.nodes.size = v := by simpa [hbid] using hb
      exact absurd (by simpa [haid] using ha) (hnew a)
    · exact h.inj a b v (by simpa [haid] using ha) (by simpa [hbid] using hb)

/-- **A row may end after a node** that something follows; wraps that were there stay. -/
theorem breakAfter (hbare : g₀.Bare t₀) (h : Wrapped g₀ t₀ g w) {id : NodeId}
    (hid : g₀.Followed t₀ id) : ∃ w', Wrapped g₀ t₀ (g.breakAfter id).1 w' ∧
      w' id = some (g.breakAfter id).2 ∧ ∀ a v, w a = some v → w' a = some v := by
  cases hw : w id with
  | some v =>
    rw [Graph.breakAfter, h.wrapBehind?_of_some hw]
    exact ⟨w, h, hw, fun _ _ ha => ha⟩
  | none =>
    have hmem : id ∈ t₀.toList := Track.mem_toList_of_mem_chain t₀ hid.1
    rw [Graph.breakAfter, h.wrapBehind?_of_none hbare hmem hw]
    refine ⟨_, h.insert hw hid, if_pos rfl, fun a v ha => ?_⟩
    have hne : a ≠ id := by
      rintro rfl
      exact absurd (hw.symm.trans ha) (by simp)
    rwa [if_neg hne]

/-- **Rows may end after some nodes:** the graph has a wrap behind each of them. -/
theorem breakAfterAll (hbare : g₀.Bare t₀) : ∀ (ids : List NodeId) {g : Graph}
    {w : NodeId → Option NodeId}, Wrapped g₀ t₀ g w → (∀ id ∈ ids, g₀.Followed t₀ id) →
    ∃ w', Wrapped g₀ t₀ (g.breakAfterAll ids).1 w' ∧
      ids.map w' = (g.breakAfterAll ids).2.map some ∧ ∀ a v, w a = some v → w' a = some v
  | [], g, w, h, _ => ⟨w, h, rfl, fun _ _ ha => ha⟩
  | id :: ids, g, w, h, hids => by
    obtain ⟨w₁, h₁, hw₁, hold₁⟩ := h.breakAfter hbare (hids id List.mem_cons_self)
    obtain ⟨w₂, h₂, hw₂, hold₂⟩ :=
      breakAfterAll hbare ids h₁ fun x hx => hids x (List.mem_cons_of_mem _ hx)
    refine ⟨w₂, h₂, ?_, fun a v ha => hold₂ a v (hold₁ a v ha)⟩
    show w₂ id :: ids.map w₂ = _
    rw [hold₂ id _ hw₁, hw₂]
    rfl

/-- Where all the wraps are there already, nothing changes. -/
theorem breakAfterAll_again (h : Wrapped g₀ t₀ g w) : ∀ {ids used : List NodeId},
    ids.map w = used.map some → g.breakAfterAll ids = (g, used)
  | [], [], _ => rfl
  | [], _ :: _, hw => absurd hw (by simp)
  | _ :: _, [], hw => absurd hw (by simp)
  | id :: ids, v :: used, hw => by
    simp only [List.map_cons, List.cons.injEq] at hw
    have hfirst : g.breakAfter id = (g, v) := by
      rw [Graph.breakAfter, h.wrapBehind?_of_some hw.1]
    rw [Graph.breakAfterAll, hfirst]
    simp only [h.breakAfterAll_again hw.2]

end Wrapped

end Railroad
