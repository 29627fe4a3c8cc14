/-
# Where escaping links lead

A link that escapes leaves a level at its end.  In a compiled graph it leads to what goes on
around the level: behind the option or the alternation that owns it, or back to the loop.

`Graph.LevelEnd` follows a level to its last node, link by link, without the tree;
`Graph.Leads` says of one node that everything it owns leads where it should.  Both are read off a
tree of which the links are held to their ends strictly (`Linked.leads`), which a compiled graph
has (`hasTree_of_compile`).  And no other link escapes (`Linked.escaping`).

There are two inductions over the tree, one for each half of the statement.  The first goes into the
levels that a node owns and finds their ends; the second collects the links that escape and finds
for each the level it ends (`Graph.AccountedFrom`).  In both the branches of an alternation are
treated on their own, since a branch below the head is on no level: it leaves its place by a link
that escapes, although it ends nothing.
-/
import Mathlib
import Railroad.Proofs.Build.Faults

namespace Railroad

/-! ## 1. Levels followed along their links -/

namespace Graph

variable {g : Graph}

/-- **The last node of the level that begins at a place,** found by following the links.  A level
that leads into itself has none.  It goes along the links of the graph as they are, with no tree at
hand. -/
inductive LevelEnd (g : Graph) : NodeId → NodeId → Prop where
  | last {id : NodeId} {node : Node} : g.nodes[id]? = some node → node.exit.onLevel = none →
    LevelEnd g id id
  | next {id next last : NodeId} {node : Node} : g.nodes[id]? = some node →
    node.exit.onLevel = some next → LevelEnd g next last → LevelEnd g id last

/-- A level has one last node. -/
theorem LevelEnd.unique {id a b : NodeId} (ha : g.LevelEnd id a) (hb : g.LevelEnd id b) : a = b := by
  induction ha with
  | last hn hstop =>
    cases hb with
    | last _ _ => rfl
    | next hn' hnext _ =>
      rw [hn] at hn'
      cases hn'
      exact absurd (hstop.symm.trans hnext) (by simp)
  | next hn hnext _ ih =>
    cases hb with
    | last hn' hstop =>
      rw [hn] at hn'
      cases hn'
      exact absurd (hstop.symm.trans hnext) (by simp)
    | next hn' hnext' hb =>
      rw [hn] at hn'
      cases hn'
      obtain rfl := Option.some.inj (hnext.symm.trans hnext')
      exact ih hb

/-- **A level ends with a link that escapes** to `next`. -/
def Leaves (g : Graph) (start next : Option NodeId) : Prop :=
  ∃ first last node, start = some first ∧ g.LevelEnd first last ∧ g.nodes[last]? = some node ∧
    node.escapes = true ∧ node.next = next

/-- **The branches of an alternation** from one of them down.  The first of them is the head of the
alternation itself. -/
inductive Below (g : Graph) : NodeId → NodeId → Prop where
  | here {id : NodeId} : Below g id id
  | down {id mid below : NodeId} {node : Node} : Below g id mid → g.nodes[mid]? = some node →
    node.down = some below → Below g id below

/-- **What a node owns leads where it should.**  There is one field for each kind of node that owns
anything; for the others nothing is said. -/
structure Leads (g : Graph) (id : NodeId) (node : Node) : Prop where
  optional : node.kind = .optional → g.Leaves node.sub node.next
  iteration : node.kind = .iteration → g.Leaves node.sub (some id)
  rerun : node.kind = .rerun → g.Leaves node.sub (some id) ∧
    (node.between.isSome = true → g.Leaves node.between (some id))
  branch : node.kind = .alternative → g.Leaves node.sub node.next ∧
    ∀ below, node.down = some below → ∃ branch, g.nodes[below]? = some branch ∧
      branch.kind = .alternative ∧ branch.escapes = true ∧ branch.next = node.next

end Graph

variable {g : Graph}

/-! ## 2. Levels of a tree -/

/-- A level that is not empty is entered by a link to its first node. -/
theorem Linked.start {ends : Exit → Exit → Prop} {arena : Arena} {leaves into : Exit}
    {t : Track NodeId} (h : Linked ends arena leaves into t) (ht : t ≠ .stop) :
    ∃ first, into = .along (some first) := by
  cases t with
  | stop => exact absurd rfl ht
  | _ => exact ⟨_, h.1⟩

/-- A level after which nothing follows is followed to its end behind its first node. -/
theorem Linked.levelEnd_cons {id : NodeId} {node : Node} {leaves : Exit} {rest : Track NodeId}
    (hn : g.arena id = some node) (hr : Linked Eq g.arena leaves node.exit rest)
    (hl : leaves.onLevel = none)
    (ih : ∀ first, node.exit = .along (some first) → ∃ last lastNode, g.LevelEnd first last ∧
      g.arena last = some lastNode ∧ lastNode.exit = leaves) :
    ∃ last lastNode, g.LevelEnd id last ∧ g.arena last = some lastNode ∧ lastNode.exit = leaves := by
  by_cases hstop : rest = .stop
  · subst hstop
    have hexit : leaves = node.exit := hr
    refine ⟨id, node, .last hn ?_, hn, hexit.symm⟩
    rw [← hexit, hl]
  · obtain ⟨first, hfirst⟩ := hr.start hstop
    obtain ⟨last, lastNode, hlast, hnode, hexit⟩ := ih first hfirst
    refine ⟨last, lastNode, .next hn ?_ hlast, hnode, hexit⟩
    rw [hfirst, Exit.onLevel_along]

/-- **A level leads where its last node leads.** -/
theorem Linked.levelEnd : ∀ {t : Track NodeId} {leaves : Exit} {first : NodeId},
    Linked Eq g.arena leaves (.along (some first)) t → leaves.onLevel = none →
    ∃ last lastNode, g.LevelEnd first last ∧ g.arena last = some lastNode ∧ lastNode.exit = leaves
  | .stop, leaves, first, h, hl => by
    have hexit : leaves = .along (some first) := h
    rw [hexit] at hl
    exact absurd hl (by simp)
  | .symbol _ _, _, _, ⟨hi, _, hn, _, _, hr⟩, hl
  | .epsilon _ _, _, _, ⟨hi, _, hn, _, hr⟩, hl
  | .wrap _ _, _, _, ⟨hi, _, hn, _, hr⟩, hl
  | .optional _ _ _, _, _, ⟨hi, _, hn, _, _, hr⟩, hl
  | .iteration _ _ _, _, _, ⟨hi, _, hn, _, _, hr⟩, hl
  | .rerun _ _ _ _, _, _, ⟨hi, _, hn, _, _, _, hr⟩, hl
  | .choice _ _, _, _, ⟨hi, _, hn, _, _, hr⟩, hl => by
    cases hi
    exact Linked.levelEnd_cons hn hr hl fun next hnext => (hnext ▸ hr).levelEnd hl

/-- A level that a node owns ends with a link that escapes to where the level should lead. -/
theorem Linked.leaves {t : Track NodeId} {start next : Option NodeId}
    (h : Linked Eq g.arena (.out next) (.along start) t) : g.Leaves start next := by
  cases start with
  | none =>
    rw [h.eq_stop_of_none] at h
    have hexit : Exit.out next = .along none := h
    exact absurd (congrArg Exit.escapes hexit) (by simp [Exit.out, Exit.along])
  | some first =>
    obtain ⟨last, lastNode, hlast, hn, hexit⟩ := h.levelEnd rfl
    obtain ⟨hnext, hescapes⟩ := Exit.mk.inj hexit
    exact ⟨first, last, lastNode, rfl, hlast, hn, hescapes, hnext⟩

/-! ## 3. What every node owns -/

/-- A node that owns nothing. -/
theorem Graph.leads_plain {id : NodeId} {node : Node} (hk : node.kind.isComposite = false) :
    g.Leads id node := by
  constructor <;> intro h <;> rw [h] at hk <;> exact absurd hk (by decide)

mutual

/-- **Everything that is owned inside a level leads where it should.** -/
theorem Linked.leads : ∀ {t : Track NodeId} {leaves into : Exit},
    Linked Eq g.arena leaves into t →
    ∀ id ∈ t.toList, ∃ node, g.arena id = some node ∧ g.Leads id node
  | .stop, _, _, _, id, hid => absurd hid List.not_mem_nil
  | .symbol _ _, _, _, ⟨_, node, hn, hk, _, hr⟩, id, hid => by
    rcases List.mem_cons.mp hid with rfl | hid
    · refine ⟨node, hn, Graph.leads_plain ?_⟩
      cases hkind : node.kind <;> rw [hkind] at hk <;> first | rfl | cases hk
    · exact hr.leads id hid
  | .epsilon _ _, _, _, ⟨_, node, hn, hk, hr⟩, id, hid
  | .wrap _ _, _, _, ⟨_, node, hn, hk, hr⟩, id, hid => by
    rcases List.mem_cons.mp hid with rfl | hid
    · exact ⟨node, hn, Graph.leads_plain (by rw [hk]; rfl)⟩
    · exact hr.leads id hid
  | .optional _ _ _, _, _, ⟨_, node, hn, hk, hb, hr⟩, id, hid => by
    simp only [Track.toList, List.mem_cons, List.mem_append] at hid
    rcases hid with rfl | hid | hid
    · refine ⟨node, hn, ?_⟩
      constructor <;> intro h
      case optional => exact hb.leaves
      all_goals exact absurd (hk.symm.trans h) (by decide)
    · exact hb.leads id hid
    · exact hr.leads id hid
  | .iteration _ _ _, _, _, ⟨_, node, hn, hk, hb, hr⟩, id, hid => by
    simp only [Track.toList, List.mem_cons, List.mem_append] at hid
    rcases hid with rfl | hid | hid
    · refine ⟨node, hn, ?_⟩
      constructor <;> intro h
      case iteration => exact hb.leaves
      all_goals exact absurd (hk.symm.trans h) (by decide)
    · exact hb.leads id hid
    · exact hr.leads id hid
  | .rerun _ _ _ _, _, _, ⟨_, node, hn, hk, hb, hw, hr⟩, id, hid => by
    simp only [Track.toList, List.mem_cons, List.mem_append] at hid
    rcases hid with rfl | (hid | hid) | hid
    · refine ⟨node, hn, ?_⟩
      constructor <;> intro h
      case rerun =>
        refine ⟨hb.leaves, fun hstart => ?_⟩
        rw [Exit.wayBack, if_pos hstart] at hw
        exact hw.leaves
      all_goals exact absurd (hk.symm.trans h) (by decide)
    · exact hb.leads id hid
    · exact hw.leads id hid
    · exact hr.leads id hid
  | .choice branches _, _, _, ⟨_, node, hn, hb, hm, hr⟩, id, hid => by
    rcases List.mem_append.mp hid with hid | hid
    · refine hb.leads (fun mark hmark => ?_) hm id hid
      rw [Track.marks_eq_head_cons] at hmark
      rcases List.mem_cons.mp hmark with rfl | hmark
      · exact ⟨node, hn, rfl⟩
      · obtain ⟨below, hbelow, hexit⟩ := hm mark hmark
        exact ⟨below, hbelow, (congrArg Exit.next hexit).symm⟩
    · exact hr.leads id hid

/-- The same inside the branches of an alternation, all of which lead to `next` and, below the
head, escape in doing so. -/
theorem LinkedBranches.leads : ∀ {bs : Branches NodeId} {next start : Option NodeId},
    LinkedBranches Eq g.arena (.out next) start bs →
    (∀ mark ∈ bs.marks, ∃ node, g.arena mark = some node ∧ node.next = next) →
    (∀ mark ∈ bs.marks.tail, ∃ node, g.arena mark = some node ∧ Exit.out next = node.exit) →
    ∀ id ∈ Track.branchList bs, ∃ node, g.arena id = some node ∧ g.Leads id node
  | .last mark body, next, _, ⟨_, node, hn, hk, hd, hb⟩, hnext, _, id, hid => by
    rcases List.mem_cons.mp hid with rfl | hid
    · obtain ⟨node', hn', hnode⟩ := hnext id List.mem_cons_self
      obtain rfl := Option.some.inj (hn.symm.trans hn')
      refine ⟨node, hn, ?_⟩
      constructor <;> intro h
      case branch =>
        refine ⟨hnode ▸ hb.leaves, fun below hbelow => ?_⟩
        exact absurd (hd.symm.trans hbelow) (by simp)
      all_goals exact absurd (hk.symm.trans h) (by decide)
    · exact hb.leads id hid
  | .more mark body others, next, _, ⟨_, node, hn, hk, hb, ho⟩, hnext, hexit, id, hid => by
    simp only [Track.branchList, List.mem_cons, List.mem_append] at hid
    rcases hid with rfl | hid | hid
    · obtain ⟨node', hn', hnode⟩ := hnext id List.mem_cons_self
      obtain rfl := Option.some.inj (hn.symm.trans hn')
      refine ⟨node, hn, ?_⟩
      constructor <;> intro h
      case branch =>
        refine ⟨hnode ▸ hb.leaves, fun below hbelow => ?_⟩
        obtain rfl : others.head = below := Option.some.inj (ho.start_eq.1.symm.trans hbelow)
        have hmark : others.head ∈ others.marks := by
          rw [Track.marks_eq_head_cons]
          exact List.mem_cons_self
        obtain ⟨branch, hbranch, hout⟩ := hexit _ hmark
        obtain ⟨hbnext, hbescapes⟩ := Exit.mk.inj hout
        exact ⟨branch, hbranch, ho.kind_head hbranch, hbescapes.symm, hbnext.symm.trans hnode.symm⟩
      all_goals exact absurd (hk.symm.trans h) (by decide)
    · exact hb.leads id hid
    · exact ho.leads (fun mark hmark => hnext mark (List.mem_cons_of_mem _ hmark))
        (fun mark hmark => hexit mark (List.mem_of_mem_tail hmark)) id hid

end

/-! ## 4. No other link escapes -/

/-- **The place of a link that escapes:** it ends a level that a node owns, or it leaves a branch
below the first.  So a link may not escape from the middle of a level. -/
def Graph.Accounted (g : Graph) (id : NodeId) : Prop :=
  (∃ (owner : NodeId) (node : Node) (first : NodeId), g.nodes[owner]? = some node ∧
    (node.sub = some first ∨ node.between = some first) ∧ g.LevelEnd first id) ∨
  ∃ (above : NodeId) (node : Node), g.nodes[above]? = some node ∧ node.kind = .alternative ∧
    node.down = some id

/-- The place of a link that ends the level begun by `into`, or lies inside it. -/
def Graph.AccountedFrom (g : Graph) (into : Exit) (id : NodeId) : Prop :=
  (∃ first, into = .along (some first) ∧ g.LevelEnd first id) ∨ g.Accounted id

/-- The level is owned. -/
theorem Graph.AccountedFrom.owned {owner id : NodeId} {node : Node} {start : Option NodeId}
    (h : g.AccountedFrom (.along start) id) (hn : g.arena owner = some node)
    (hown : node.sub = start ∨ node.between = start) : g.Accounted id := by
  rcases h with ⟨first, hfirst, hend⟩ | h
  · obtain rfl : start = some first := congrArg Exit.next hfirst
    exact .inl ⟨owner, node, first, hn, hown, hend⟩
  · exact h

/-- The level begins further to the left. -/
theorem Graph.AccountedFrom.cons {before id : NodeId} {node : Node}
    (h : g.AccountedFrom node.exit id) (hn : g.arena before = some node) :
    g.AccountedFrom (.along (some before)) id := by
  rcases h with ⟨first, hfirst, hend⟩ | h
  · refine .inl ⟨before, rfl, .next hn ?_ hend⟩
    rw [hfirst, Exit.onLevel_along]
  · exact .inr h

/-- A node that is left by a link that escapes is the last of its level. -/
theorem Graph.AccountedFrom.here {id : NodeId} {node : Node} (hn : g.arena id = some node)
    (he : node.escapes = true) : g.AccountedFrom (.along (some id)) id :=
  .inl ⟨id, rfl, .last hn (if_pos he)⟩

mutual

/-- **Every link that escapes on a level or inside it is at its place.** -/
theorem Linked.escaping : ∀ {t : Track NodeId} {leaves into : Exit},
    Linked Eq g.arena leaves into t →
    ∀ id ∈ t.toList, ∀ x, g.arena id = some x → x.escapes = true → g.AccountedFrom into id
  | .stop, _, _, _, id, hid, _, _, _ => absurd hid List.not_mem_nil
  | .symbol _ _, _, _, ⟨hi, node, hn, _, _, hr⟩, id, hid, x, hx, he
  | .epsilon _ _, _, _, ⟨hi, node, hn, _, hr⟩, id, hid, x, hx, he
  | .wrap _ _, _, _, ⟨hi, node, hn, _, hr⟩, id, hid, x, hx, he => by
    rw [hi]
    rcases List.mem_cons.mp hid with rfl | hid
    · exact .here hx he
    · exact (hr.escaping id hid x hx he).cons hn
  | .optional _ _ _, _, _, ⟨hi, node, hn, _, hb, hr⟩, id, hid, x, hx, he
  | .iteration _ _ _, _, _, ⟨hi, node, hn, _, hb, hr⟩, id, hid, x, hx, he => by
    rw [hi]
    simp only [Track.toList, List.mem_cons, List.mem_append] at hid
    rcases hid with rfl | hid | hid
    · exact .here hx he
    · exact .inr ((hb.escaping id hid x hx he).owned hn (.inl rfl))
    · exact (hr.escaping id hid x hx he).cons hn
  | .rerun _ _ _ _, _, _, ⟨hi, node, hn, _, hb, hw, hr⟩, id, hid, x, hx, he => by
    rw [hi]
    simp only [Track.toList, List.mem_cons, List.mem_append] at hid
    rcases hid with rfl | (hid | hid) | hid
    · exact .here hx he
    · exact .inr ((hb.escaping id hid x hx he).owned hn (.inl rfl))
    · exact .inr ((hw.escaping id hid x hx he).owned hn (.inr rfl))
    · exact (hr.escaping id hid x hx he).cons hn
  | .choice branches _, _, _, ⟨hi, node, hn, hb, _, hr⟩, id, hid, x, hx, he => by
    rw [hi]
    rcases List.mem_append.mp hid with hid | hid
    · rcases hb.escaping id hid x hx he with rfl | h
      · exact .here hx he
      · exact .inr h
    · exact (hr.escaping id hid x hx he).cons hn

/-- The same for the branches of an alternation; the head is on the level around it. -/
theorem LinkedBranches.escaping : ∀ {bs : Branches NodeId} {leaves : Exit} {start : Option NodeId},
    LinkedBranches Eq g.arena leaves start bs → ∀ id ∈ Track.branchList bs, ∀ x,
    g.arena id = some x → x.escapes = true → id = bs.head ∨ g.Accounted id
  | .last _ _, _, _, ⟨_, node, hn, _, _, hb⟩, id, hid, x, hx, he => by
    rcases List.mem_cons.mp hid with rfl | hid
    · exact .inl rfl
    · exact .inr ((hb.escaping id hid x hx he).owned hn (.inl rfl))
  | .more _ _ others, _, _, ⟨_, node, hn, hk, hb, ho⟩, id, hid, x, hx, he => by
    simp only [Track.branchList, List.mem_cons, List.mem_append] at hid
    rcases hid with rfl | hid | hid
    · exact .inl rfl
    · exact .inr ((hb.escaping id hid x hx he).owned hn (.inl rfl))
    · rcases ho.escaping id hid x hx he with rfl | h
      · exact .inr (.inr ⟨_, node, hn, hk, ho.start_eq.1⟩)
      · exact .inr h

end

/-! ## 5. Compiled graphs -/

/-- All the branches of an alternation lead to where its head leads, and all but the head escape in
doing so. -/
theorem Graph.Below.leads {id below : NodeId} {node : Node} (hn : g.nodes[id]? = some node)
    (hk : node.kind = .alternative)
    (hall : ∀ x n, g.nodes[x]? = some n → g.Leads x n) (h : g.Below id below) :
    ∃ branch, g.nodes[below]? = some branch ∧ branch.kind = .alternative ∧
      g.Leaves branch.sub node.next ∧ branch.next = node.next ∧
      (below ≠ id → branch.escapes = true) := by
  induction h with
  | here => exact ⟨node, hn, hk, ((hall id node hn).branch hk).1, rfl, fun h => absurd rfl h⟩
  | @down mid below m _ hm hdown ih =>
    obtain ⟨branch, hbranch, hbk, -, hbnext, -⟩ := ih
    obtain rfl := Option.some.inj (hbranch.symm.trans hm)
    obtain ⟨lower, hlower, hlk, hle, hlnext⟩ := ((hall mid branch hbranch).branch hbk).2 below hdown
    have hleaves := ((hall below lower hlower).branch hlk).1
    rw [hlnext, hbnext] at hleaves
    exact ⟨lower, hlower, hlk, hleaves, hlnext.trans hbnext, fun _ => hle⟩

namespace Build

/-- **Every link that escapes in a compiled graph leads to what goes on around it.**

* The level of an option leads to where the option leads, and so do the levels of all branches of
  an alternation and the branches below the first.
* The levels of a loop lead back to it.
* No other link escapes.

Where a link leads is said of the owner as it stands in the finished graph, so nothing is left open
that a later step of building would have to fill in.  For a node that has no level of its own there
is nothing to say but the last point. -/
theorem compile_exits_lead {r : Registry} {collapsing : Bool} {p : Production} {g : Graph}
    (h : (compile r collapsing p).1 = .ok g) (id : NodeId) (node : Node)
    (hn : g.nodes[id]? = some node) :
    (node.kind = .optional → g.Leaves node.sub node.next) ∧
    (node.kind = .alternative → ∀ below, g.Below id below → ∃ branch,
      g.nodes[below]? = some branch ∧ branch.kind = .alternative ∧
      g.Leaves branch.sub node.next ∧ branch.next = node.next ∧
      (below ≠ id → branch.escapes = true)) ∧
    (node.kind = .iteration → g.Leaves node.sub (some id)) ∧
    (node.kind = .rerun → g.Leaves node.sub (some id) ∧
      (node.between.isSome = true → g.Leaves node.between (some id))) ∧
    (node.escapes = true → g.Accounted id) := by
  obtain ⟨t, htree, -⟩ := hasTree_of_compile h
  have hmem : ∀ (x : NodeId) (n : Node), g.nodes[x]? = some n → x ∈ t.toList := by
    intro x n hx
    exact (htree.mem_iff x).mpr (Array.getElem?_eq_some_iff.mp hx).1
  have hall : ∀ x n, g.nodes[x]? = some n → g.Leads x n := by
    intro x n hx
    obtain ⟨n', hn', hleads⟩ := htree.linked.leads x (hmem x n hx)
    rw [← Option.some.inj (hn'.symm.trans hx)]
    exact hleads
  obtain ⟨hoptional, hiteration, hrerun, -⟩ := hall id node hn
  refine ⟨hoptional, fun hk below hbelow => hbelow.leads hn hk hall, hiteration, hrerun, ?_⟩
  intro he
  rcases htree.linked.escaping id (hmem id node hn) node hn he with ⟨first, hfirst, hend⟩ | hplace
  · -- The top level is owned by no node, but it does not escape either.
    obtain ⟨last, lastNode, hlast, hlastNode, hexit⟩ :=
      htree.linked.levelEnd rfl
    obtain rfl : g.entry = first := Option.some.inj (congrArg Exit.next hfirst)
    obtain rfl := hend.unique hlast
    obtain rfl := Option.some.inj (hlastNode.symm.trans hn)
    exact absurd (he.symm.trans (congrArg Exit.escapes hexit)) (by simp [Exit.along])
  · exact hplace

/-- The production `p = "a" { ( "b" | [ "c" ] ) "a" }`. -/
def behindProduction : Production where
  name := "p"
  expr := .sequence [.literal ⟨"a", {}⟩, .repetition (.sequence
    [.alternation [.literal ⟨"b", {}⟩, .optional (.literal ⟨"c", {}⟩)], .literal ⟨"a", {}⟩])]

/-- Its repetition is a rerun, at the place 6, over an alternation at the places 2 and 5.  Both
branches lead back to the rerun, the second from its option. -/
theorem compile_exits_lead_back : ∃ g node, (compile {} true behindProduction).1 = .ok g ∧
    g.nodes[2]? = some node ∧ node.kind = .alternative ∧ g.Below 2 5 ∧ node.next = some 6 ∧
    ∃ branch, g.nodes[5]? = some branch ∧ branch.kind = .alternative ∧
      g.Leaves branch.sub (some 6) ∧ branch.next = some 6 ∧ (5 ≠ 2 → branch.escapes = true) := by
  let g : Graph := {
    nodes := #[
      { serial := 0, kind := .terminal, symbol := some 0, next := some 6, escapes := true },
      { serial := 1, kind := .terminal, symbol := some 1, next := some 6, escapes := true },
      { serial := 2, kind := .alternative, next := some 6, escapes := true, down := some 5,
        sub := some 1 },
      { serial := 3, kind := .terminal, symbol := some 2, next := some 6, escapes := true },
      { serial := 4, kind := .optional, next := some 6, escapes := true, sub := some 3 },
      { serial := 5, kind := .alternative, next := some 6, escapes := true, sub := some 4 },
      { serial := 6, kind := .rerun, sub := some 0, between := some 2 }]
    entry := 6 }
  have hg : (compile {} true behindProduction).1 = .ok g := by cbv
  have hbelow : g.Below 2 5 := .down .here rfl rfl
  exact ⟨g, _, hg, rfl, rfl, hbelow, rfl, (compile_exits_lead hg 2 _ rfl).2.1 rfl 5 hbelow⟩

end Build
end Railroad
