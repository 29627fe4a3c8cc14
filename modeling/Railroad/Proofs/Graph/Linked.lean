/-
# Levels in an arena

`Linked` says of an arena and a tree of places that the links of the arena run through the tree:
every level begins where the link into it points, each of its nodes leads to the next one without
escaping, and its last node leads on to where the level as a whole leads.  Where that is follows
from the node that owns the level:

* the level of an option and the levels of an alternation leave to what follows the construct, and
  so do the branches below the first;
* the levels of an iteration or a rerun leave to the loop itself.

How strictly the last link of a level is held to this is a parameter: `Eq` in a graph that was
just compiled, `Exit.Similar` in one that has got wraps since.

A tree that the links run through is the one that a walk comes by (`Linked.traced`), and the check
of `Graph.checkClosed` comes by its places in reading order (`checkOnward_of_linked`).

`Linked` is a statement about the tree and the arena together, by recursion on the tree, so that
lemmas about building can establish it piece by piece (`Linked.append`, `LinkedBranches.snoc`) and
lemmas about walking can use it in the same order.  `Graph.HasTree` is the statement for a whole
graph, which has every place once.  Almost everything that is said of a compiled graph is said
through it.
-/
import Railroad.Graph.Closure
import Railroad.Proofs.Graph.Traced

namespace Railroad

/-! ## 1. The links of a tree -/

variable {ends : Exit → Exit → Prop} {arena arena' : Arena}

mutual

/-- **The links of the arena run along a level,** from the link `into` to the place the level as a
whole leads to; `ends` compares that with where its last node leads.  What a node owns is linked in
the same way, with the node or what follows it as the place that it leads to. -/
def Linked (ends : Exit → Exit → Prop) (arena : Arena) (leaves into : Exit) : Track NodeId → Prop
  | .stop => ends leaves into
  | .symbol id rest =>
    into = .along (some id) ∧ ∃ node, arena id = some node ∧ node.kind.isSymbol = true ∧
      node.symbol.isSome = true ∧ Linked ends arena leaves node.exit rest
  | .epsilon id rest =>
    into = .along (some id) ∧ ∃ node, arena id = some node ∧ node.kind = .epsilon ∧
      Linked ends arena leaves node.exit rest
  | .wrap id rest =>
    into = .along (some id) ∧ ∃ node, arena id = some node ∧ node.kind = .wrap ∧
      Linked ends arena leaves node.exit rest
  | .optional id body rest =>
    into = .along (some id) ∧ ∃ node, arena id = some node ∧ node.kind = .optional ∧
      Linked ends arena (.out node.next) (.along node.sub) body ∧
      Linked ends arena leaves node.exit rest
  | .iteration id body rest =>
    into = .along (some id) ∧ ∃ node, arena id = some node ∧ node.kind = .iteration ∧
      Linked ends arena (.out (some id)) (.along node.sub) body ∧
      Linked ends arena leaves node.exit rest
  | .rerun id body between rest =>
    into = .along (some id) ∧ ∃ node, arena id = some node ∧ node.kind = .rerun ∧
      Linked ends arena (.out (some id)) (.along node.sub) body ∧
      Linked ends arena (.wayBack id node.between) (.along node.between) between ∧
      Linked ends arena leaves node.exit rest
  | .choice branches rest =>
    into = .along (some branches.head) ∧ ∃ node, arena branches.head = some node ∧
      LinkedBranches ends arena (.out node.next) (some branches.head) branches ∧
      (∀ id ∈ branches.marks.tail,
        ∃ below, arena id = some below ∧ ends (.out node.next) below.exit) ∧
      Linked ends arena leaves node.exit rest

/-- The links of the arena run down the branches of an alternation, from `start` on, and along
their levels. -/
def LinkedBranches (ends : Exit → Exit → Prop) (arena : Arena) (leaves : Exit)
    (start : Option NodeId) : Branches NodeId → Prop
  | .last id body =>
    start = some id ∧ ∃ node, arena id = some node ∧ node.kind = .alternative ∧ node.down = none ∧
      Linked ends arena leaves (.along node.sub) body
  | .more id body others =>
    start = some id ∧ ∃ node, arena id = some node ∧ node.kind = .alternative ∧
      Linked ends arena leaves (.along node.sub) body ∧
      LinkedBranches ends arena leaves node.down others

end

/-- Branches begin where the link into them points, and there is a node. -/
theorem LinkedBranches.start_eq {leaves : Exit} {start : Option NodeId} {bs : Branches NodeId}
    (h : LinkedBranches ends arena leaves start bs) :
    start = some bs.head ∧ ∃ node, arena bs.head = some node := by
  cases bs with
  | last id body =>
    obtain ⟨hi, node, hn, -⟩ := h
    exact ⟨hi, node, hn⟩
  | more id body others =>
    obtain ⟨hi, node, hn, -⟩ := h
    exact ⟨hi, node, hn⟩

/-- The head of an alternation is a branch. -/
theorem LinkedBranches.kind_head {leaves : Exit} {start : Option NodeId} {bs : Branches NodeId}
    {node : Node} (h : LinkedBranches ends arena leaves start bs) (hn : arena bs.head = some node) :
    node.kind = .alternative := by
  cases bs with
  | last id body =>
    obtain ⟨-, node', hn', hk, -⟩ := h
    rw [Option.some.inj (hn.symm.trans hn'), hk]
  | more id body others =>
    obtain ⟨-, node', hn', hk, -⟩ := h
    rw [Option.some.inj (hn.symm.trans hn'), hk]

/-! ## 2. Links depend on the places of the tree only -/

mutual

/-- **The frame of a level:** an arena with the same nodes at the places of the tree. -/
theorem Linked.congr : ∀ {t : Track NodeId} {leaves into : Exit},
    (∀ id ∈ t.toList, arena' id = arena id) → Linked ends arena leaves into t →
    Linked ends arena' leaves into t
  | .stop, _, _, _, h => h
  | .symbol id rest, _, _, ha, ⟨hi, node, hn, hk, hs, hr⟩ =>
    ⟨hi, node, by rw [ha id (by simp [Track.toList]), hn], hk, hs,
      hr.congr fun x hx => ha x (by simp [Track.toList, hx])⟩
  | .epsilon id rest, _, _, ha, ⟨hi, node, hn, hk, hr⟩ =>
    ⟨hi, node, by rw [ha id (by simp [Track.toList]), hn], hk,
      hr.congr fun x hx => ha x (by simp [Track.toList, hx])⟩
  | .wrap id rest, _, _, ha, ⟨hi, node, hn, hk, hr⟩ =>
    ⟨hi, node, by rw [ha id (by simp [Track.toList]), hn], hk,
      hr.congr fun x hx => ha x (by simp [Track.toList, hx])⟩
  | .optional id body rest, _, _, ha, ⟨hi, node, hn, hk, hb, hr⟩ =>
    ⟨hi, node, by rw [ha id (by simp [Track.toList]), hn], hk,
      hb.congr fun x hx => ha x (by simp [Track.toList, hx]),
      hr.congr fun x hx => ha x (by simp [Track.toList, hx])⟩
  | .iteration id body rest, _, _, ha, ⟨hi, node, hn, hk, hb, hr⟩ =>
    ⟨hi, node, by rw [ha id (by simp [Track.toList]), hn], hk,
      hb.congr fun x hx => ha x (by simp [Track.toList, hx]),
      hr.congr fun x hx => ha x (by simp [Track.toList, hx])⟩
  | .rerun id body between rest, _, _, ha, ⟨hi, node, hn, hk, hb, hw, hr⟩ =>
    ⟨hi, node, by rw [ha id (by simp [Track.toList]), hn], hk,
      hb.congr fun x hx => ha x (by simp [Track.toList, hx]),
      hw.congr fun x hx => ha x (by simp [Track.toList, hx]),
      hr.congr fun x hx => ha x (by simp [Track.toList, hx])⟩
  | .choice branches rest, _, _, ha, ⟨hi, node, hn, hb, hm, hr⟩ => by
    have hmarks : ∀ id ∈ branches.marks, arena' id = arena id := fun id hid =>
      ha id (List.mem_append_left _ (Track.mem_branchList_of_mem_marks branches hid))
    refine ⟨hi, node, ?_, hb.congr fun x hx => ha x (by simp [Track.toList, hx]), ?_,
      hr.congr fun x hx => ha x (by simp [Track.toList, hx])⟩
    · rw [hmarks _ (by rw [Track.marks_eq_head_cons]; exact List.mem_cons_self), hn]
    · intro id hid
      rw [hmarks id (List.mem_of_mem_tail hid)]
      exact hm id hid

theorem LinkedBranches.congr : ∀ {bs : Branches NodeId} {leaves : Exit} {start : Option NodeId},
    (∀ id ∈ Track.branchList bs, arena' id = arena id) →
    LinkedBranches ends arena leaves start bs → LinkedBranches ends arena' leaves start bs
  | .last id body, _, _, ha, ⟨hi, node, hn, hk, hd, hb⟩ =>
    ⟨hi, node, by rw [ha id (by simp [Track.branchList]), hn], hk, hd,
      hb.congr fun x hx => ha x (by simp [Track.branchList, hx])⟩
  | .more id body others, _, _, ha, ⟨hi, node, hn, hk, hb, ho⟩ =>
    ⟨hi, node, by rw [ha id (by simp [Track.branchList]), hn], hk,
      hb.congr fun x hx => ha x (by simp [Track.branchList, hx]),
      ho.congr fun x hx => ha x (by simp [Track.branchList, hx])⟩

end

mutual

/-- Links that are held to their ends strictly are so held to them less strictly. -/
theorem Linked.mono {ends' : Exit → Exit → Prop} (hends : ∀ a b, ends a b → ends' a b) :
    ∀ {t : Track NodeId} {leaves into : Exit}, Linked ends arena leaves into t →
    Linked ends' arena leaves into t
  | .stop, _, _, h => hends _ _ h
  | .symbol _ _, _, _, ⟨hi, node, hn, hk, hs, hr⟩ => ⟨hi, node, hn, hk, hs, hr.mono hends⟩
  | .epsilon _ _, _, _, ⟨hi, node, hn, hk, hr⟩ => ⟨hi, node, hn, hk, hr.mono hends⟩
  | .wrap _ _, _, _, ⟨hi, node, hn, hk, hr⟩ => ⟨hi, node, hn, hk, hr.mono hends⟩
  | .optional _ _ _, _, _, ⟨hi, node, hn, hk, hb, hr⟩ =>
    ⟨hi, node, hn, hk, hb.mono hends, hr.mono hends⟩
  | .iteration _ _ _, _, _, ⟨hi, node, hn, hk, hb, hr⟩ =>
    ⟨hi, node, hn, hk, hb.mono hends, hr.mono hends⟩
  | .rerun _ _ _ _, _, _, ⟨hi, node, hn, hk, hb, hw, hr⟩ =>
    ⟨hi, node, hn, hk, hb.mono hends, hw.mono hends, hr.mono hends⟩
  | .choice _ _, _, _, ⟨hi, node, hn, hb, hm, hr⟩ => by
    refine ⟨hi, node, hn, hb.mono hends, ?_, hr.mono hends⟩
    intro id hid
    obtain ⟨below, hbelow, he⟩ := hm id hid
    exact ⟨below, hbelow, hends _ _ he⟩

theorem LinkedBranches.mono {ends' : Exit → Exit → Prop} (hends : ∀ a b, ends a b → ends' a b) :
    ∀ {bs : Branches NodeId} {leaves : Exit} {start : Option NodeId},
    LinkedBranches ends arena leaves start bs → LinkedBranches ends' arena leaves start bs
  | .last _ _, _, _, ⟨hi, node, hn, hk, hd, hb⟩ => ⟨hi, node, hn, hk, hd, hb.mono hends⟩
  | .more _ _ _, _, _, ⟨hi, node, hn, hk, hb, ho⟩ =>
    ⟨hi, node, hn, hk, hb.mono hends, ho.mono hends⟩

end

/-! ## 3. Levels joined, branches added -/

/-- **A level behind another:** the first leads to where the second begins. -/
theorem Linked.append {s : Track NodeId} {leaves mid : Exit} (hs : Linked Eq arena leaves mid s) :
    ∀ {t : Track NodeId} {into : Exit}, Linked Eq arena mid into t →
    Linked Eq arena leaves into (t.append s)
  | .stop, _, h => h ▸ hs
  | .symbol _ _, _, ⟨hi, node, hn, hk, hy, hr⟩ => ⟨hi, node, hn, hk, hy, hs.append hr⟩
  | .epsilon _ _, _, ⟨hi, node, hn, hk, hr⟩ => ⟨hi, node, hn, hk, hs.append hr⟩
  | .wrap _ _, _, ⟨hi, node, hn, hk, hr⟩ => ⟨hi, node, hn, hk, hs.append hr⟩
  | .optional _ _ _, _, ⟨hi, node, hn, hk, hb, hr⟩ => ⟨hi, node, hn, hk, hb, hs.append hr⟩
  | .iteration _ _ _, _, ⟨hi, node, hn, hk, hb, hr⟩ => ⟨hi, node, hn, hk, hb, hs.append hr⟩
  | .rerun _ _ _ _, _, ⟨hi, node, hn, hk, hb, hw, hr⟩ => ⟨hi, node, hn, hk, hb, hw, hs.append hr⟩
  | .choice _ _, _, ⟨hi, node, hn, hb, hm, hr⟩ => by
    refine ⟨?_, node, ?_, ?_, hm, hs.append hr⟩
    · exact hi
    · exact hn
    · exact hb

/-- **One more branch:** the last one leads down to it, everything else is as it was. -/
theorem LinkedBranches.snoc {leaves : Exit} {c : NodeId} {below : Track NodeId} {last : Node}
    (hc : LinkedBranches ends arena' leaves (some c) (.last c below)) :
    ∀ {bs : Branches NodeId} {start : Option NodeId}, LinkedBranches ends arena leaves start bs →
    (Track.branchList bs).Nodup →
    (∀ id ∈ Track.branchList bs, id ≠ bs.lastMark → arena' id = arena id) →
    arena bs.lastMark = some last → arena' bs.lastMark = some { last with down := some c } →
    LinkedBranches ends arena' leaves start (Track.snoc bs c below)
  | .last id body, _, ⟨hi, node, hn, hk, _, hb⟩, hnodup, ha, hlast, hlast' => by
    simp only [Branches.lastMark] at ha hlast hlast'
    have hnode : node = last := Option.some.inj (hn.symm.trans hlast)
    subst hnode
    refine ⟨hi, _, hlast', hk, hb.congr ?_, hc⟩
    intro x hx
    refine ha x (by simp [Track.branchList, hx]) ?_
    rintro rfl
    exact (List.nodup_cons.mp hnodup).1 hx
  | .more id body others, _, ⟨hi, node, hn, hk, hb, ho⟩, hnodup, ha, hlast, hlast' => by
    simp only [Branches.lastMark] at ha hlast hlast'
    have hmem : others.lastMark ∈ Track.branchList others :=
      Track.mem_branchList_of_mem_marks others (Track.lastMark_mem_marks others)
    obtain ⟨hid, hrest⟩ := List.nodup_cons.mp hnodup
    obtain ⟨-, hothers, hdisjoint⟩ := List.nodup_append.mp hrest
    refine ⟨hi, node, ?_, hk, hb.congr ?_, hc.snoc ho hothers ?_ hlast hlast'⟩
    · rw [ha id List.mem_cons_self ?_, hn]
      rintro rfl
      exact hid (List.mem_append_right _ hmem)
    · intro x hx
      exact ha x (by simp [Track.branchList, hx]) (hdisjoint x hx _ hmem)
    · intro x hx
      exact ha x (by simp [Track.branchList, hx])

/-! ## 4. Linked levels are walked along -/

theorem Exit.onLevel_wayBack (id : NodeId) (start : Option NodeId) :
    (Exit.wayBack id start).onLevel = none := by
  unfold Exit.wayBack
  split <;> rfl

mutual

/-- **A level that the links run along is walked along,** if it leads out of itself or nowhere. -/
theorem Linked.traced : ∀ {t : Track NodeId} {leaves into : Exit},
    Linked Exit.Similar arena leaves into t → leaves.onLevel = none → Traced arena into.onLevel t
  | .stop, _, _, h, hl => (Exit.Similar.onLevel_eq h).trans hl
  | .symbol _ _, _, _, ⟨hi, node, hn, hk, _, hr⟩, hl
  | .epsilon _ _, _, _, ⟨hi, node, hn, hk, hr⟩, hl
  | .wrap _ _, _, _, ⟨hi, node, hn, hk, hr⟩, hl =>
    ⟨hi ▸ rfl, node, hn, hk, hr.traced hl⟩
  | .optional _ _ _, _, _, ⟨hi, node, hn, hk, hb, hr⟩, hl
  | .iteration _ _ _, _, _, ⟨hi, node, hn, hk, hb, hr⟩, hl =>
    ⟨hi ▸ rfl, node, hn, hk, hb.traced rfl, hr.traced hl⟩
  | .rerun _ _ _ _, _, _, ⟨hi, node, hn, hk, hb, hw, hr⟩, hl =>
    ⟨hi ▸ rfl, node, hn, hk, hb.traced rfl, hw.traced (Exit.onLevel_wayBack _ _), hr.traced hl⟩
  | .choice _ _, _, _, ⟨hi, node, hn, hb, _, hr⟩, hl =>
    ⟨node, hn, hi ▸ hb.traced rfl, hr.traced hl⟩

theorem LinkedBranches.traced : ∀ {bs : Branches NodeId} {leaves : Exit} {start : Option NodeId},
    LinkedBranches Exit.Similar arena leaves start bs → leaves.onLevel = none →
    TracedBranches arena start bs
  | .last _ _, _, _, ⟨hi, node, hn, hk, hd, hb⟩, hl => ⟨hi, node, hn, hk, hd, hb.traced hl⟩
  | .more _ _ _, _, _, ⟨hi, node, hn, hk, hb, ho⟩, hl =>
    ⟨hi, node, hn, hk, hb.traced hl, ho.traced hl⟩

end

/-! ## 5. The walk of the closure check -/

namespace Graph

variable {g : Graph}

/-- How the walk goes on behind a node that leads to `e`. -/
def checkOnward (g : Graph) (top : Bool) (fuel : Nat) (id : NodeId) (e : Exit)
    (visited : List NodeId) : Except Malformed (List NodeId) :=
  match e.next, e.escapes with
  | some next, false => g.checkLevel top fuel next visited
  | none, false => if top then .ok visited else .error (g.malformed id .nestedEnd)
  | _, true => if top then .error (g.malformed id .topEscapes) else .ok visited

/-- The walk comes by a node, by what it owns, and goes on behind it. -/
theorem checkLevel_node {id : NodeId} {node : Node} {visited inside : List NodeId} {top : Bool}
    {fuel : Nat} (hn : g.arena id = some node) (hid : id ∉ visited)
    (hc : g.checkChildren fuel id node (id :: visited) = .ok inside) :
    g.checkLevel top (fuel + 1) id visited = g.checkOnward top fuel id node.exit inside := by
  have hnode : g.nodes[id]? = some node := hn
  cases hnext : node.next <;> cases he : node.escapes <;>
    simp only [checkLevel, hnode, List.contains_eq_mem, hid, decide_false, Bool.false_eq_true,
      if_false, hc, checkOnward, Node.exit, hnext, he]

/-- A node without levels is left at once. -/
theorem checkChildren_plain {id : NodeId} {node : Node} {visited : List NodeId} {fuel : Nat}
    (hs : node.kind.isSymbol = true → node.symbol.isSome = true)
    (hc : node.kind.isComposite = false) :
    g.checkChildren (fuel + 1) id node visited = .ok visited := by
  have hn : (node.kind.isSymbol && node.symbol.isNone) = false := by
    cases hk : node.kind.isSymbol with
    | false => rfl
    | true => simp [Option.isNone_eq_false_iff.mpr (hs hk)]
  simp [checkChildren, hn, hc]

/-- The walk into a level that a node owns finds where it begins. -/
theorem checkOnward_along {id : NodeId} {start : Option NodeId} {visited inside : List NodeId}
    {fuel : Nat} (h : g.checkOnward false fuel id (.along start) visited = .ok inside) :
    ∃ first, start = some first ∧ g.checkLevel false fuel first visited = .ok inside := by
  cases start with
  | none => exact absurd h (by simp [checkOnward, Exit.along])
  | some first => exact ⟨first, rfl, h⟩

/-- An option or an iteration has one level. -/
theorem checkChildren_level {id : NodeId} {node : Node} {visited inside : List NodeId}
    {fuel : Nat} (hk : node.kind = .optional ∨ node.kind = .iteration)
    (hb : g.checkOnward false fuel id (.along node.sub) visited = .ok inside) :
    g.checkChildren (fuel + 1) id node visited = .ok inside := by
  obtain ⟨sub, hsub, hb⟩ := checkOnward_along hb
  rcases hk with hk | hk <;>
    simp [checkChildren, hk, NodeKind.isSymbol, NodeKind.isComposite, hsub, hb]

/-- A rerun has one level or two. -/
theorem checkChildren_rerun {id : NodeId} {node : Node} {visited body inside : List NodeId}
    {fuel : Nat} (hk : node.kind = .rerun)
    (hb : g.checkOnward false fuel id (.along node.sub) visited = .ok body)
    (hw : node.between = none ∧ inside = body ∨
      g.checkOnward false fuel id (.along node.between) body = .ok inside) :
    g.checkChildren (fuel + 1) id node visited = .ok inside := by
  obtain ⟨sub, hsub, hb⟩ := checkOnward_along hb
  rcases hw with ⟨hnone, rfl⟩ | hw
  · simp [checkChildren, hk, NodeKind.isSymbol, NodeKind.isComposite, hsub, hb, hnone]
  · obtain ⟨between, hbetween, hw⟩ := checkOnward_along hw
    simp [checkChildren, hk, NodeKind.isSymbol, NodeKind.isComposite, hsub, hb, hbetween, hw]

/-- An alternation has the level of its head, and those of the branches below. -/
theorem checkChildren_choice {id : NodeId} {node : Node} {visited body : List NodeId}
    {fuel : Nat} (hk : node.kind = .alternative)
    (hb : g.checkOnward false fuel id (.along node.sub) visited = .ok body) :
    g.checkChildren (fuel + 1) id node visited =
      match node.down with
      | none => .ok body
      | some down => g.checkBranches fuel down body := by
  obtain ⟨sub, hsub, hb⟩ := checkOnward_along hb
  cases hd : node.down <;>
    simp [checkChildren, hk, NodeKind.isSymbol, NodeKind.isComposite, hsub, hb, hd]

/-- The walk down the branches comes by a branch and by its level. -/
theorem checkBranches_node {id : NodeId} {node : Node} {visited body : List NodeId}
    {fuel : Nat} (hn : g.arena id = some node) (hid : id ∉ visited) (hk : node.kind = .alternative)
    (hb : g.checkOnward false fuel id (.along node.sub) (id :: visited) = .ok body) :
    g.checkBranches (fuel + 1) id visited =
      match node.down with
      | none => .ok body
      | some down => g.checkBranches fuel down body := by
  have hnode : g.nodes[id]? = some node := hn
  obtain ⟨sub, hsub, hb⟩ := checkOnward_along hb
  cases hd : node.down <;> simp [checkBranches, hnode, hid, hk, hsub, hb, hd]

end Graph

/-- Where a rerun has no second level, nothing is on it. -/
theorem Linked.eq_stop_of_none {leaves : Exit} {t : Track NodeId}
    (h : Linked ends arena leaves (.along none) t) : t = .stop := by
  cases t with
  | stop => rfl
  | _ => exact absurd (congrArg Exit.next h.1) (by simp [Exit.along])

mutual

/-- **The walk along a level** comes by its places and those inside in reading order, if none of
them was visited before and it may look deep enough. -/
theorem checkOnward_of_linked {g : Graph} : ∀ {t : Track NodeId} {leaves into : Exit} {top : Bool}
    {fuel : Nat} {before : NodeId} {visited : List NodeId},
    Linked Exit.Similar g.arena leaves into t → leaves.escapes = !top →
    (leaves.escapes = false → leaves.next = none) → (t.toList.reverse ++ visited).Nodup →
    3 * t.toList.length ≤ fuel →
    g.checkOnward top fuel before into visited = .ok (t.toList.reverse ++ visited)
  | .stop, leaves, into, top, fuel, before, visited, ⟨he, hn⟩, htop, hnone, _, _ => by
    rw [htop] at he hn hnone
    cases top with
    | true =>
      have hnext : into.next = none := (hn rfl).trans (hnone rfl)
      simp [Graph.checkOnward, hnext, he, Track.toList]
    | false => simp [Graph.checkOnward, he, Track.toList]
  | .symbol id rest, leaves, into, top, fuel, before, visited, ⟨hi, node, hn, hk, hs, hr⟩, htop,
      hnone, hnodup, hf => by
    simp only [Track.toList, List.length_cons, List.reverse_cons, List.append_assoc,
      List.singleton_append] at hf hnodup ⊢
    obtain ⟨fuel, rfl⟩ : ∃ k, fuel = k + 2 := ⟨fuel - 2, by omega⟩
    have hid : id ∉ visited := (List.nodup_cons.mp (List.nodup_append.mp hnodup).2.1).1
    have hc : g.checkChildren (fuel + 1) id node (id :: visited) = .ok (id :: visited) :=
      Graph.checkChildren_plain (fun _ => hs)
        (by cases hkind : node.kind <;> simp_all [NodeKind.isSymbol, NodeKind.isComposite])
    rw [hi]
    exact (Graph.checkLevel_node hn hid hc).trans
      (checkOnward_of_linked hr htop hnone hnodup (by omega))
  | .epsilon id rest, leaves, into, top, fuel, before, visited, ⟨hi, node, hn, hk, hr⟩, htop,
      hnone, hnodup, hf
  | .wrap id rest, leaves, into, top, fuel, before, visited, ⟨hi, node, hn, hk, hr⟩, htop,
      hnone, hnodup, hf => by
    simp only [Track.toList, List.length_cons, List.reverse_cons, List.append_assoc,
      List.singleton_append] at hf hnodup ⊢
    obtain ⟨fuel, rfl⟩ : ∃ k, fuel = k + 2 := ⟨fuel - 2, by omega⟩
    have hid : id ∉ visited := (List.nodup_cons.mp (List.nodup_append.mp hnodup).2.1).1
    have hc : g.checkChildren (fuel + 1) id node (id :: visited) = .ok (id :: visited) :=
      Graph.checkChildren_plain (by simp [hk, NodeKind.isSymbol])
        (by simp [hk, NodeKind.isComposite])
    rw [hi]
    exact (Graph.checkLevel_node hn hid hc).trans
      (checkOnward_of_linked hr htop hnone hnodup (by omega))
  | .optional id body rest, leaves, into, top, fuel, before, visited, ⟨hi, node, hn, hk, hb, hr⟩,
      htop, hnone, hnodup, hf
  | .iteration id body rest, leaves, into, top, fuel, before, visited, ⟨hi, node, hn, hk, hb, hr⟩,
      htop, hnone, hnodup, hf => by
    simp only [Track.toList, List.length_cons, List.length_append, List.reverse_cons,
      List.reverse_append, List.append_assoc, List.singleton_append] at hf hnodup ⊢
    obtain ⟨fuel, rfl⟩ : ∃ k, fuel = k + 2 := ⟨fuel - 2, by omega⟩
    have hnodupBody := (List.nodup_append.mp hnodup).2.1
    have hid : id ∉ visited := (List.nodup_cons.mp (List.nodup_append.mp hnodupBody).2.1).1
    have hbody : g.checkOnward false fuel id (.along node.sub) (id :: visited)
        = .ok (body.toList.reverse ++ id :: visited) :=
      checkOnward_of_linked hb rfl (by simp [Exit.out]) hnodupBody (by omega)
    have hc := Graph.checkChildren_level (by simp [hk]) hbody
    rw [hi]
    exact (Graph.checkLevel_node hn hid hc).trans
      (checkOnward_of_linked hr htop hnone hnodup (by omega))
  | .rerun id body between rest, leaves, into, top, fuel, before, visited,
      ⟨hi, node, hn, hk, hb, hw, hr⟩, htop, hnone, hnodup, hf => by
    simp only [Track.toList, List.length_cons, List.length_append, List.reverse_cons,
      List.reverse_append, List.append_assoc, List.singleton_append] at hf hnodup ⊢
    obtain ⟨fuel, rfl⟩ : ∃ k, fuel = k + 2 := ⟨fuel - 2, by omega⟩
    have hnodupBetween := (List.nodup_append.mp hnodup).2.1
    have hnodupBody := (List.nodup_append.mp hnodupBetween).2.1
    have hid : id ∉ visited := (List.nodup_cons.mp (List.nodup_append.mp hnodupBody).2.1).1
    have hbody : g.checkOnward false fuel id (.along node.sub) (id :: visited)
        = .ok (body.toList.reverse ++ id :: visited) :=
      checkOnward_of_linked hb rfl (by simp [Exit.out]) hnodupBody (by omega)
    have hc : g.checkChildren (fuel + 1) id node (id :: visited)
        = .ok (between.toList.reverse ++ (body.toList.reverse ++ id :: visited)) := by
      refine Graph.checkChildren_rerun hk hbody ?_
      cases hstart : node.between with
      | none =>
        rw [hstart] at hw
        exact .inl ⟨rfl, by rw [hw.eq_stop_of_none]; rfl⟩
      | some start =>
        rw [hstart] at hw
        exact .inr (checkOnward_of_linked hw rfl (by simp [Exit.wayBack, Exit.out]) hnodupBetween
          (by omega))
    rw [hi]
    exact (Graph.checkLevel_node hn hid hc).trans
      (checkOnward_of_linked hr htop hnone hnodup (by omega))
  | .choice branches rest, leaves, into, top, fuel, before, visited, ⟨hi, node, hn, hb, _, hr⟩, htop,
      hnone, hnodup, hf => by
    simp only [Track.toList, List.length_append, List.reverse_append, List.append_assoc]
      at hf hnodup ⊢
    have hpos : 0 < (Track.branchList branches).length :=
      List.length_pos_of_mem (Track.head_mem_branchList branches)
    obtain ⟨fuel, rfl⟩ : ∃ k, fuel = k + 2 := ⟨fuel - 2, by omega⟩
    have hnodupBranches := (List.nodup_append.mp hnodup).2.1
    have hwalk : branches.head ∉ visited ∧
        g.checkChildren (fuel + 1) branches.head node (branches.head :: visited)
          = .ok ((Track.branchList branches).reverse ++ visited) :=
      checkChildren_of_linked hb hn rfl hnodupBranches (by omega)
    obtain ⟨hid, hc⟩ := hwalk
    rw [hi]
    exact (Graph.checkLevel_node hn hid hc).trans
      (checkOnward_of_linked hr htop hnone hnodup (by omega))

/-- The walk through an alternation, its head having been come by. -/
theorem checkChildren_of_linked {g : Graph} : ∀ {bs : Branches NodeId} {leaves : Exit}
    {start : Option NodeId} {fuel : Nat} {node : Node} {visited : List NodeId},
    LinkedBranches Exit.Similar g.arena leaves start bs → g.arena bs.head = some node →
    leaves.escapes = true → ((Track.branchList bs).reverse ++ visited).Nodup →
    3 * (Track.branchList bs).length ≤ fuel + 2 →
    bs.head ∉ visited ∧
      g.checkChildren (fuel + 1) bs.head node (bs.head :: visited)
        = .ok ((Track.branchList bs).reverse ++ visited)
  | .last id body, leaves, start, fuel, node, visited, ⟨_, node', hn', hk, hd, hb⟩, hn, hl, hnodup,
      hf => by
    obtain rfl : node = node' := Option.some.inj (hn.symm.trans hn')
    simp only [Track.branchList, List.length_cons, List.reverse_cons, List.append_assoc,
      List.singleton_append] at hf hnodup ⊢
    refine ⟨(List.nodup_cons.mp (List.nodup_append.mp hnodup).2.1).1, ?_⟩
    have hbody : g.checkOnward false fuel id (.along node.sub) (id :: visited)
        = .ok (body.toList.reverse ++ id :: visited) :=
      checkOnward_of_linked hb hl (by simp [hl]) hnodup (by omega)
    rw [Branches.head, Graph.checkChildren_choice hk hbody, hd]
  | .more id body others, leaves, start, fuel, node, visited, ⟨_, node', hn', hk, hb, ho⟩, hn, hl,
      hnodup, hf => by
    obtain rfl : node = node' := Option.some.inj (hn.symm.trans hn')
    simp only [Track.branchList, List.length_cons, List.length_append, List.reverse_cons,
      List.reverse_append, List.append_assoc, List.singleton_append] at hf hnodup ⊢
    have hnodupBody := (List.nodup_append.mp hnodup).2.1
    refine ⟨(List.nodup_cons.mp (List.nodup_append.mp hnodupBody).2.1).1, ?_⟩
    have hbody : g.checkOnward false fuel id (.along node.sub) (id :: visited)
        = .ok (body.toList.reverse ++ id :: visited) :=
      checkOnward_of_linked hb hl (by simp [hl]) hnodupBody (by omega)
    rw [Branches.head, Graph.checkChildren_choice hk hbody, ho.start_eq.1]
    exact checkBranches_of_linked ho hl hnodup (by omega)

/-- The walk down the branches of an alternation. -/
theorem checkBranches_of_linked {g : Graph} : ∀ {bs : Branches NodeId} {leaves : Exit}
    {start : Option NodeId} {fuel : Nat} {visited : List NodeId},
    LinkedBranches Exit.Similar g.arena leaves start bs → leaves.escapes = true →
    ((Track.branchList bs).reverse ++ visited).Nodup → 3 * (Track.branchList bs).length ≤ fuel + 1 →
    g.checkBranches fuel bs.head visited = .ok ((Track.branchList bs).reverse ++ visited)
  | .last id body, leaves, start, fuel, visited, ⟨_, node, hn, hk, hd, hb⟩, hl, hnodup, hf => by
    simp only [Track.branchList, List.length_cons, List.reverse_cons, List.append_assoc,
      List.singleton_append] at hf hnodup ⊢
    obtain ⟨fuel, rfl⟩ : ∃ k, fuel = k + 1 := ⟨fuel - 1, by omega⟩
    have hid : id ∉ visited := (List.nodup_cons.mp (List.nodup_append.mp hnodup).2.1).1
    have hbody : g.checkOnward false fuel id (.along node.sub) (id :: visited)
        = .ok (body.toList.reverse ++ id :: visited) :=
      checkOnward_of_linked hb hl (by simp [hl]) hnodup (by omega)
    rw [Branches.head, Graph.checkBranches_node hn hid hk hbody, hd]
  | .more id body others, leaves, start, fuel, visited, ⟨_, node, hn, hk, hb, ho⟩, hl, hnodup, hf => by
    have hpos : 0 < (Track.branchList others).length :=
      List.length_pos_of_mem (Track.head_mem_branchList others)
    simp only [Track.branchList, List.length_cons, List.length_append, List.reverse_cons,
      List.reverse_append, List.append_assoc, List.singleton_append] at hf hnodup ⊢
    obtain ⟨fuel, rfl⟩ : ∃ k, fuel = k + 1 := ⟨fuel - 1, by omega⟩
    have hnodupBody := (List.nodup_append.mp hnodup).2.1
    have hid : id ∉ visited := (List.nodup_cons.mp (List.nodup_append.mp hnodupBody).2.1).1
    have hbody : g.checkOnward false fuel id (.along node.sub) (id :: visited)
        = .ok (body.toList.reverse ++ id :: visited) :=
      checkOnward_of_linked hb hl (by simp [hl]) hnodupBody (by omega)
    rw [Branches.head, Graph.checkBranches_node hn hid hk hbody, ho.start_eq.1]
    exact checkBranches_of_linked ho hl hnodup (by omega)

end

/-! ## 6. Where levels end -/

/-- The last node of a level that goes on behind a node. -/
theorem Linked.last_cons {leaves : Exit} {id : NodeId} {node : Node} {rest : Track NodeId}
    (hn : arena id = some node)
    (h : (rest = .stop ∧ ends leaves node.exit) ∨ ∃ last lastNode, rest.chain.getLast? = some last ∧
      arena last = some lastNode ∧ ends leaves lastNode.exit) :
    ∃ last lastNode, (id :: rest.chain).getLast? = some last ∧ arena last = some lastNode ∧
      ends leaves lastNode.exit := by
  rcases h with ⟨rfl, he⟩ | ⟨last, lastNode, hlast, hnode, he⟩
  · exact ⟨id, node, rfl, hn, he⟩
  · refine ⟨last, lastNode, ?_, hnode, he⟩
    rw [List.getLast?_cons, hlast]
    rfl

/-- **A level leads where its last node leads,** or, if nothing is on it, where the link into it
does. -/
theorem Linked.last : ∀ {t : Track NodeId} {leaves into : Exit}, Linked ends arena leaves into t →
    (t = .stop ∧ ends leaves into) ∨ ∃ last lastNode, t.chain.getLast? = some last ∧
      arena last = some lastNode ∧ ends leaves lastNode.exit
  | .stop, _, _, h => .inl ⟨rfl, h⟩
  | .symbol _ _, _, _, ⟨_, _, hn, _, _, hr⟩ => .inr (Linked.last_cons hn hr.last)
  | .epsilon _ _, _, _, ⟨_, _, hn, _, hr⟩ => .inr (Linked.last_cons hn hr.last)
  | .wrap _ _, _, _, ⟨_, _, hn, _, hr⟩ => .inr (Linked.last_cons hn hr.last)
  | .optional _ _ _, _, _, ⟨_, _, hn, _, _, hr⟩ => .inr (Linked.last_cons hn hr.last)
  | .iteration _ _ _, _, _, ⟨_, _, hn, _, _, hr⟩ => .inr (Linked.last_cons hn hr.last)
  | .rerun _ _ _ _, _, _, ⟨_, _, hn, _, _, _, hr⟩ => .inr (Linked.last_cons hn hr.last)
  | .choice _ _, _, _, ⟨_, _, hn, _, _, hr⟩ => .inr (Linked.last_cons hn hr.last)

/-- A level that leads out of itself ends with a link that escapes. -/
theorem Linked.last_escapes {t : Track NodeId} {leaves : Exit} {start : Option NodeId}
    (h : Linked Exit.Similar arena leaves (.along start) t) (hl : leaves.escapes = true) :
    ∃ last lastNode, t.chain.getLast? = some last ∧ arena last = some lastNode ∧
      lastNode.escapes = true := by
  rcases h.last with ⟨-, he, -⟩ | ⟨last, lastNode, hlast, hnode, he, -⟩
  · exact absurd (he.trans hl) Bool.false_ne_true
  · exact ⟨last, lastNode, hlast, hnode, he.trans hl⟩

mutual

/-- **Every level inside a level ends with a link that escapes.** -/
theorem Linked.inner_escapes : ∀ {t : Track NodeId} {leaves into : Exit},
    Linked Exit.Similar arena leaves into t → ∀ level ∈ t.inner, ∃ last lastNode,
      level.chain.getLast? = some last ∧ arena last = some lastNode ∧ lastNode.escapes = true
  | .stop, _, _, _, level, hlevel => absurd hlevel List.not_mem_nil
  | .symbol _ _, _, _, ⟨_, _, _, _, _, hr⟩, level, hlevel => hr.inner_escapes level hlevel
  | .epsilon _ _, _, _, ⟨_, _, _, _, hr⟩, level, hlevel => hr.inner_escapes level hlevel
  | .wrap _ _, _, _, ⟨_, _, _, _, hr⟩, level, hlevel => hr.inner_escapes level hlevel
  | .optional _ body rest, _, _, ⟨_, _, _, _, hb, hr⟩, level, hlevel
  | .iteration _ body rest, _, _, ⟨_, _, _, _, hb, hr⟩, level, hlevel => by
    rcases List.mem_cons.mp hlevel with rfl | hlevel
    · exact hb.last_escapes rfl
    · rcases List.mem_append.mp hlevel with hlevel | hlevel
      · exact hb.inner_escapes level hlevel
      · exact hr.inner_escapes level hlevel
  | .rerun _ body between rest, _, _, ⟨_, node, _, _, hb, hw, hr⟩, level, hlevel => by
    simp only [Track.inner, List.mem_cons, List.mem_append] at hlevel
    rcases hlevel with rfl | hlevel | hlevel | hlevel | hlevel
    · exact hb.last_escapes rfl
    · exact hb.inner_escapes level hlevel
    · cases hstart : node.between with
      | none =>
        rw [hstart] at hw
        rw [hw.eq_stop_of_none] at hlevel
        exact absurd hlevel List.not_mem_nil
      | some start =>
        rw [hstart] at hw
        obtain rfl := Track.eq_of_mem_present hlevel
        exact hw.last_escapes rfl
    · exact hw.inner_escapes level hlevel
    · exact hr.inner_escapes level hlevel
  | .choice _ _, _, _, ⟨_, _, _, hb, _, hr⟩, level, hlevel => by
    rcases List.mem_append.mp hlevel with hlevel | hlevel
    · exact hb.inner_escapes rfl level hlevel
    · exact hr.inner_escapes level hlevel

theorem LinkedBranches.inner_escapes : ∀ {bs : Branches NodeId} {leaves : Exit}
    {start : Option NodeId}, LinkedBranches Exit.Similar arena leaves start bs →
    leaves.escapes = true → ∀ level ∈ Track.innerBranches bs, ∃ last lastNode,
      level.chain.getLast? = some last ∧ arena last = some lastNode ∧ lastNode.escapes = true
  | .last _ body, _, _, ⟨_, _, _, _, _, hb⟩, hl, level, hlevel => by
    rcases List.mem_cons.mp hlevel with rfl | hlevel
    · exact hb.last_escapes hl
    · exact hb.inner_escapes level hlevel
  | .more _ body others, _, _, ⟨_, _, _, _, hb, ho⟩, hl, level, hlevel => by
    rcases List.mem_cons.mp hlevel with rfl | hlevel
    · exact hb.last_escapes hl
    · rcases List.mem_append.mp hlevel with hlevel | hlevel
      · exact hb.inner_escapes level hlevel
      · exact ho.inner_escapes hl level hlevel

end

/-! ## 7. Graphs with a tree -/

/-- **The links of a graph run along a tree** that has each of its nodes once.  Reading the graph
with any bound that is large enough gives this tree. -/
structure Graph.HasTree (ends : Exit → Exit → Prop) (g : Graph) (t : Track NodeId) : Prop where
  linked : Linked ends g.arena (.along none) (.along (some g.entry)) t
  nodup : t.toList.Nodup
  mem_iff : ∀ id : Nat, id ∈ t.toList ↔ id < g.nodes.size

namespace Graph.HasTree

variable {g : Graph} {t : Track NodeId}

/-- A graph whose levels lead exactly where they should. -/
theorem similar (h : g.HasTree Eq t) : g.HasTree Exit.Similar t where
  linked := h.linked.mono fun _ _ => Exit.Similar.of_eq
  nodup := h.nodup
  mem_iff := h.mem_iff

/-- There is a node at each place of the tree. -/
theorem node_of_mem (h : g.HasTree ends t) {id : NodeId} (hid : id ∈ t.toList) :
    ∃ node, g.arena id = some node :=
  ⟨_, Array.getElem?_eq_getElem ((h.mem_iff id).mp hid)⟩

theorem perm_range (h : g.HasTree ends t) : t.toList.Perm (List.range g.nodes.size) :=
  (List.perm_ext_iff_of_nodup h.nodup List.nodup_range).mpr fun id => by
    rw [h.mem_iff, List.mem_range]

theorem length_eq (h : g.HasTree ends t) : t.toList.length = g.nodes.size := by
  rw [h.perm_range.length_eq, List.length_range]

/-- The tree is what the walk through the graph comes by. -/
theorem traced (h : g.HasTree Exit.Similar t) : Traced g.arena (some g.entry) t :=
  h.linked.traced rfl

/-- The tree is the one that is read off the graph. -/
theorem track_eq (h : g.HasTree Exit.Similar t) : g.track = t.map g.spotAt :=
  h.traced.readTrack_eq (Nat.le_of_eq (congrArg (2 * ·) h.length_eq))

/-- **A graph with a tree is closed.** -/
theorem checkClosed_eq (h : g.HasTree Exit.Similar t) : g.checkClosed = .ok () := by
  have hwalk : g.checkLevel true (3 * g.nodes.size + 2) g.entry []
      = .ok (t.toList.reverse ++ []) := by
    have hlength := h.length_eq
    have honward : g.checkOnward true (3 * g.nodes.size + 2) g.entry (.along (some g.entry)) []
        = .ok (t.toList.reverse ++ []) :=
      checkOnward_of_linked h.linked rfl (fun _ => rfl)
        (by rw [List.append_nil]; exact (List.reverse_perm _).nodup_iff.mpr h.nodup) (by omega)
    exact honward
  have hall : (List.range g.nodes.size).find? (fun id => !(t.toList.reverse ++ []).contains id)
      = none := by
    rw [List.find?_eq_none]
    intro id hid
    simp [(h.mem_iff id).mpr (List.mem_range.mp hid)]
  rw [checkClosed, hwalk]
  simp only [hall]

end Graph.HasTree

/-- **A graph in which nothing is left over or left open,** as its tree shows it: each place is
there once, with the node that is there; every level inside ends with a link that escapes; the top
level ends with one that leads nowhere and does not escape. -/
structure Graph.Complete (g : Graph) : Prop where
  closed : g.checkClosed = .ok ()
  once : (g.track.toList.map (·.id)).Perm (List.range g.nodes.size)
  node : ∀ spot ∈ g.track.toList, g.nodes[spot.id]? = some spot.node
  inner : ∀ level ∈ g.track.inner, ∃ last, level.chain.getLast? = some last ∧
    last.node.escapes = true
  top : ∃ last, g.track.chain.getLast? = some last ∧ last.node.escapes = false ∧
    last.node.next = none

theorem Graph.HasTree.complete {g : Graph} {t : Track NodeId} (h : g.HasTree Exit.Similar t) :
    g.Complete where
  closed := h.checkClosed_eq
  once := by
    rw [h.track_eq, Track.toList_map, List.map_map]
    simpa [Function.comp_def] using h.perm_range
  node := by
    rw [h.track_eq, Track.toList_map, List.forall_mem_map]
    intro id hid
    obtain ⟨node, hn⟩ := h.node_of_mem hid
    rw [Graph.spotAt_node hn]
    exact hn
  inner := by
    rw [h.track_eq, Track.inner_map, List.forall_mem_map]
    intro level hlevel
    obtain ⟨last, lastNode, hlast, hn, he⟩ := h.linked.inner_escapes level hlevel
    refine ⟨g.spotAt last, ?_, ?_⟩
    · rw [Track.chain_map, List.getLast?_map, hlast]
      rfl
    · rw [Graph.spotAt_node hn, he]
  top := by
    rcases h.linked.last with ⟨-, -, hnext⟩ | ⟨last, lastNode, hlast, hn, he, hnext⟩
    · exact absurd (hnext rfl) (by simp [Exit.along])
    · refine ⟨g.spotAt last, ?_, ?_, ?_⟩
      · rw [h.track_eq, Track.chain_map, List.getLast?_map, hlast]
        rfl
      · rw [Graph.spotAt_node hn]
        exact he
      · rw [Graph.spotAt_node hn]
        exact hnext rfl

end Railroad
