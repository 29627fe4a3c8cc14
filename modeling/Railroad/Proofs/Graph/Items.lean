/-
# Nodes with their levels

`Track.items` takes a tree apart into its nodes, each with the levels it owns: what holds of every
node of a tree, at any depth, is said of its items.

A level that is not empty is an item before the rest of the level (`Item.before`), and what holds of
the empty level and carries over from the levels of an item and from the rest to the whole holds of
every level (`Track.item_induction`, and `Track.row_induction` with the wraps apart).

In the tree of a graph every item is `Proper`: the node is of the kind that it is read as, its
levels have nodes on them, and no wrap is among these (`Linked.items_proper`).

The point of this is to have one case instead of eight.  Most passes treat all nodes of a level
alike but for their own box or mark, and a lemma about such a pass has two cases, a node before the
rest and nothing, when it goes by items.  What the kinds do differently is asked of the item, by a
definition with a case for each kind (`Item.Sized`, `Item.Stands` and others in later modules).
-/
import Mathlib.Data.List.Perm.Basic
import Railroad.Proofs.Graph.Linked

namespace Railroad

variable {β γ : Type}

/-! ## 1. Items -/

/-- **A node with the levels it owns.**  An alternation is one item with all its branches.  A level
is a list of these, which is how most statements about levels are made. -/
inductive Item (β : Type) where
  | symbol (b : β)
  | epsilon (b : β)
  | wrap (b : β)
  | optional (b : β) (body : Track β)
  | iteration (b : β) (body : Track β)
  | rerun (b : β) (body between : Track β)
  | choice (branches : Branches β)

/-- Changes what is attached to a node and inside it. -/
def Item.map (f : β → γ) : Item β → Item γ
  | .symbol b => .symbol (f b)
  | .epsilon b => .epsilon (f b)
  | .wrap b => .wrap (f b)
  | .optional b body => .optional (f b) (body.map f)
  | .iteration b body => .iteration (f b) (body.map f)
  | .rerun b body between => .rerun (f b) (body.map f) (between.map f)
  | .choice branches => .choice (Track.mapBranches f branches)

/-- The branches of an alternation with their levels. -/
def Branches.levels : Branches β → List (β × Track β)
  | .last b body => [(b, body)]
  | .more b body others => (b, body) :: others.levels

namespace Item

/-- What is attached to the node itself. -/
def mark : Item β → β
  | .symbol b => b
  | .epsilon b => b
  | .wrap b => b
  | .optional b _ => b
  | .iteration b _ => b
  | .rerun b _ _ => b
  | .choice branches => branches.head

/-- What is attached to the node itself, or to each of the branches of an alternation. -/
def marks : Item β → List β
  | .choice branches => branches.marks
  | item => [item.mark]

/-- The levels that the node owns. -/
def levels : Item β → List (Track β)
  | .symbol _ => []
  | .epsilon _ => []
  | .wrap _ => []
  | .optional _ body => [body]
  | .iteration _ body => [body]
  | .rerun _ body between => [body, between]
  | .choice branches => branches.levels.map Prod.snd

/-- **The level that begins with the node.** -/
def before (rest : Track β) : Item β → Track β
  | .symbol b => .symbol b rest
  | .epsilon b => .epsilon b rest
  | .wrap b => .wrap b rest
  | .optional b body => .optional b body rest
  | .iteration b body => .iteration b body rest
  | .rerun b body between => .rerun b body between rest
  | .choice branches => .choice branches rest

/-- It is a symbol. -/
def isSymbol : Item β → Bool
  | .symbol _ => true
  | _ => false

/-- It is a wrap. -/
def isWrap : Item β → Bool
  | .wrap _ => true
  | _ => false

theorem mark_map (f : β → γ) (item : Item β) : (item.map f).mark = f item.mark := by
  cases item with
  | choice branches => cases branches <;> rfl
  | _ => rfl

theorem marks_eq_cons (item : Item β) : item.marks = item.mark :: item.marks.tail := by
  cases item with
  | choice branches => exact Track.marks_eq_head_cons branches
  | _ => rfl

theorem mark_mem_marks (item : Item β) : item.mark ∈ item.marks := by
  rw [marks_eq_cons]
  exact List.mem_cons_self

end Item

namespace Track

mutual

/-- **The nodes of a tree with their levels,** at any depth.  The branches of an alternation are not
items of their own. -/
def items : Track β → List (Item β)
  | .stop => []
  | .symbol b rest => .symbol b :: rest.items
  | .epsilon b rest => .epsilon b :: rest.items
  | .wrap b rest => .wrap b :: rest.items
  | .optional b body rest => .optional b body :: (body.items ++ rest.items)
  | .iteration b body rest => .iteration b body :: (body.items ++ rest.items)
  | .rerun b body between rest =>
    .rerun b body between :: (body.items ++ (between.items ++ rest.items))
  | .choice branches rest => .choice branches :: (branchItems branches ++ rest.items)

/-- The nodes inside the branches with their levels. -/
def branchItems : Branches β → List (Item β)
  | .last _ body => body.items
  | .more _ body others => body.items ++ branchItems others

end

mutual

theorem items_map (f : β → γ) : ∀ t : Track β, (t.map f).items = t.items.map (Item.map f)
  | .stop => rfl
  | .symbol _ rest | .epsilon _ rest | .wrap _ rest => by
    rw [map, items, items, items_map f rest, List.map_cons, Item.map]
  | .optional _ body rest | .iteration _ body rest => by
    rw [map, items, items, items_map f body, items_map f rest, List.map_cons, List.map_append,
      Item.map]
  | .rerun _ body between rest => by
    rw [map, items, items, items_map f body, items_map f between, items_map f rest, List.map_cons,
      List.map_append, List.map_append, Item.map]
  | .choice branches rest => by
    rw [map, items, items, branchItems_map f branches, items_map f rest, List.map_cons,
      List.map_append, Item.map]

theorem branchItems_map (f : β → γ) : ∀ bs : Branches β,
    branchItems (mapBranches f bs) = (branchItems bs).map (Item.map f)
  | .last _ body => by rw [mapBranches, branchItems, branchItems, items_map f body]
  | .more _ body others => by
    rw [mapBranches, branchItems, branchItems, items_map f body, branchItems_map f others,
      List.map_append]

end

theorem items_append (s : Track β) : ∀ t : Track β, (t.append s).items = t.items ++ s.items
  | .stop => rfl
  | .symbol _ rest | .epsilon _ rest | .wrap _ rest => by
    rw [append, items, items, items_append s rest, List.cons_append]
  | .optional _ body rest | .iteration _ body rest | .rerun _ body between rest
  | .choice branches rest => by
    simp only [append, items, items_append s rest, List.cons_append, List.append_assoc]

theorem branchItems_snoc (b : β) (t : Track β) : ∀ bs : Branches β,
    branchItems (snoc bs b t) = branchItems bs ++ t.items
  | .last _ _ => rfl
  | .more _ body others => by
    rw [snoc, branchItems, branchItems, branchItems_snoc b t others, List.append_assoc]

theorem levels_mapBranches (f : β → γ) : ∀ bs : Branches β,
    (mapBranches f bs).levels = bs.levels.map fun level => (f level.1, level.2.map f)
  | .last _ _ => rfl
  | .more _ _ others => by
    rw [mapBranches, Branches.levels, Branches.levels, levels_mapBranches f others, List.map_cons]

theorem marks_eq_levels : ∀ bs : Branches β, bs.marks = bs.levels.map Prod.fst
  | .last _ _ => rfl
  | .more b _ others => congrArg (b :: ·) (marks_eq_levels others)

theorem marks_mapBranches (f : β → γ) (bs : Branches β) :
    (mapBranches f bs).marks = bs.marks.map f := by
  rw [marks_eq_levels, marks_eq_levels, levels_mapBranches, List.map_map, List.map_map]
  rfl

theorem levels_eq_head_cons (bs : Branches β) :
    ∃ body, bs.levels = (bs.head, body) :: bs.levels.tail := by
  cases bs <;> exact ⟨_, rfl⟩

mutual

/-- **Induction along a level:** what holds of the empty level, and of a level if it holds of what
its first node owns and of what follows that node, holds of all levels. -/
@[elab_as_elim]
theorem item_induction {motive : Track β → Prop} (stop : motive .stop)
    (before : ∀ (item : Item β) (rest : Track β), (∀ level ∈ item.levels, motive level) →
      motive rest → motive (item.before rest)) : ∀ t : Track β, motive t
  | .stop => stop
  | .symbol b rest =>
    before (.symbol b) rest (List.forall_mem_nil _) (item_induction stop before rest)
  | .epsilon b rest =>
    before (.epsilon b) rest (List.forall_mem_nil _) (item_induction stop before rest)
  | .wrap b rest =>
    before (.wrap b) rest (List.forall_mem_nil _) (item_induction stop before rest)
  | .optional b body rest =>
    before (.optional b body) rest
      (List.forall_mem_singleton.mpr (item_induction stop before body))
      (item_induction stop before rest)
  | .iteration b body rest =>
    before (.iteration b body) rest
      (List.forall_mem_singleton.mpr (item_induction stop before body))
      (item_induction stop before rest)
  | .rerun b body between rest =>
    before (.rerun b body between) rest
      (List.forall_mem_cons.mpr ⟨item_induction stop before body,
        List.forall_mem_singleton.mpr (item_induction stop before between)⟩)
      (item_induction stop before rest)
  | .choice branches rest =>
    before (.choice branches) rest
      (List.forall_mem_map.mpr (branch_induction stop before branches))
      (item_induction stop before rest)

theorem branch_induction {motive : Track β → Prop} (stop : motive .stop)
    (before : ∀ (item : Item β) (rest : Track β), (∀ level ∈ item.levels, motive level) →
      motive rest → motive (item.before rest)) :
    ∀ bs : Branches β, ∀ level ∈ bs.levels, motive level.2
  | .last _ body => List.forall_mem_singleton.mpr (item_induction stop before body)
  | .more _ body others =>
    List.forall_mem_cons.mpr
      ⟨item_induction stop before body, branch_induction stop before others⟩

end

/-- **Induction along a level with the wraps apart,** for what treats all other nodes alike. -/
@[elab_as_elim]
theorem row_induction {motive : Track β → Prop} (stop : motive .stop)
    (wrap : ∀ (b : β) (rest : Track β), motive rest → motive (.wrap b rest))
    (before : ∀ (item : Item β) (rest : Track β), item.isWrap = false →
      (∀ level ∈ item.levels, motive level) → motive rest → motive (item.before rest))
    (t : Track β) : motive t := by
  refine item_induction stop (fun item rest inside ih => ?_) t
  cases hitem : item.isWrap with
  | false => exact before item rest hitem inside ih
  | true =>
    cases item with
    | wrap b => exact wrap b rest ih
    | _ => cases hitem

theorem branchItems_eq : ∀ bs : Branches β, branchItems bs = bs.levels.flatMap (·.2.items)
  | .last _ _ => (List.flatMap_singleton ..).symm
  | .more _ body others => congrArg (body.items ++ ·) (branchItems_eq others)

theorem branchList_eq : ∀ bs : Branches β,
    branchList bs = bs.levels.flatMap fun level => level.1 :: level.2.toList
  | .last _ _ => (List.flatMap_singleton ..).symm
  | .more b body others => congrArg (b :: body.toList ++ ·) (branchList_eq others)

/-- The nodes of a level are its first node, those inside it and those that follow. -/
theorem items_before (item : Item β) (rest : Track β) :
    (item.before rest).items = item :: (item.levels.flatMap items ++ rest.items) := by
  cases item with
  | choice branches =>
    rw [Item.before, items, branchItems_eq, Item.levels, List.flatMap_map]
  | _ => simp [Item.before, items, Item.levels]

/-- What is attached to the nodes of a level, with its first node apart. -/
theorem toList_before (item : Item β) (rest : Track β) : (item.before rest).toList.Perm
    (item.marks ++ (item.levels.flatMap toList ++ rest.toList)) := by
  cases item with
  | choice branches =>
    rw [Item.before, toList, branchList_eq, Item.levels, Item.marks, List.flatMap_map,
      marks_eq_levels, ← List.append_assoc]
    exact (List.map_append_flatMap_perm branches.levels Prod.fst (·.2.toList)).symm.append_right _
  | symbol _ | epsilon _ | wrap _ => exact .refl _
  | optional _ _ | iteration _ _ => simp [Item.before, toList, Item.levels, Item.marks, Item.mark]
  | rerun _ _ _ => simp [Item.before, toList, Item.levels, Item.marks, Item.mark]

/-- **What is attached to a tree is attached to its nodes** and to their branches. -/
theorem toList_perm_marks (t : Track β) : t.toList.Perm (t.items.flatMap Item.marks) := by
  induction t using item_induction with
  | stop => exact .nil
  | before item rest inside ih =>
    rw [items_before, List.flatMap_cons, List.flatMap_append, List.flatMap_assoc]
    refine (toList_before item rest).trans (.append_left _ (.append ?_ ih))
    exact .flatMap_left _ inside

theorem mem_toList_iff {b : β} {t : Track β} :
    b ∈ t.toList ↔ ∃ item ∈ t.items, b ∈ item.marks := by
  rw [(toList_perm_marks t).mem_iff, List.mem_flatMap]

theorem map_before (f : β → γ) (item : Item β) (rest : Track β) :
    (item.before rest).map f = (item.map f).before (rest.map f) := by
  cases item <;> rfl

theorem chain_before (item : Item β) (rest : Track β) :
    (item.before rest).chain = item.mark :: rest.chain := by
  cases item <;> rfl

theorem wrapFree_before {item : Item β} {rest : Track β} (h : (item.before rest).WrapFree) :
    item.isWrap = false ∧ rest.WrapFree := by
  cases item with
  | symbol _ | epsilon _ => exact ⟨rfl, h⟩
  | wrap _ => exact h.elim
  | optional _ _ | iteration _ _ | choice _ => exact ⟨rfl, h.2⟩
  | rerun _ _ _ => exact ⟨rfl, h.2.2⟩

/-- What holds of all nodes of a level holds of its first node, inside it and behind it. -/
theorem forall_items_before {p : Item β → Prop} {item : Item β} {rest : Track β} :
    (∀ x ∈ (item.before rest).items, p x) ↔
      p item ∧ (∀ level ∈ item.levels, ∀ x ∈ level.items, p x) ∧ ∀ x ∈ rest.items, p x := by
  rw [items_before]
  simp only [List.forall_mem_cons, List.forall_mem_append, List.forall_mem_flatMap]

/-- The levels of a changed node are its levels, changed. -/
theorem levels_map (f : β → γ) (item : Item β) :
    (item.map f).levels = item.levels.map (map f) := by
  cases item with
  | choice branches =>
    simp only [Item.map, Item.levels, levels_mapBranches, List.map_map]
    rfl
  | _ => rfl

/-- All levels inside a tree have a property. -/
def Inside (p : Track β → Prop) (t : Track β) : Prop :=
  ∀ item ∈ t.items, ∀ level ∈ item.levels, p level

theorem inside_map {f : β → γ} {p : Track γ → Prop} {t : Track β} :
    (t.map f).Inside p ↔ t.Inside fun level => p (level.map f) := by
  simp only [Inside, items_map, levels_map, List.forall_mem_map]

/-- **The nodes in the levels of a node** are nodes of the tree. -/
theorem items_subset_of_mem_levels {item : Item β} {level : Track β} (t : Track β) :
    item ∈ t.items → level ∈ item.levels → level.items ⊆ t.items := by
  induction t using item_induction with
  | stop => exact fun h _ => absurd h List.not_mem_nil
  | before first rest inside ih =>
    intro hitem hlevel
    rw [items_before] at hitem ⊢
    refine List.subset_cons_of_subset _ ?_
    simp only [List.mem_cons, List.mem_append, List.mem_flatMap] at hitem
    rcases hitem with rfl | ⟨outer, houter, hitem⟩ | hitem
    · exact List.subset_append_of_subset_left _
        fun x hx => List.mem_flatMap.mpr ⟨level, hlevel, hx⟩
    · exact List.subset_append_of_subset_left _
        fun x hx => List.mem_flatMap.mpr ⟨outer, houter, inside outer houter hitem hlevel hx⟩
    · exact List.subset_append_of_subset_right _ (ih hitem hlevel)

end Track

/-! ## 2. Items of a graph -/

/-- A level that a node may own: there are nodes on it, and no wrap is among them or inside. -/
def Track.IsOwned (t : Track β) : Prop := t.isStop = false ∧ t.WrapFree

/-- **A node is of the kind that it is read as,** and so are the branches of an alternation; the
levels that it owns have nodes and no wraps. -/
def Item.Proper (kind : β → NodeKind) : Item β → Prop
  | .symbol b => (kind b).isSymbol = true
  | .epsilon b => kind b = .epsilon
  | .wrap b => kind b = .wrap
  | .optional b body => kind b = .optional ∧ body.IsOwned
  | .iteration b body => kind b = .iteration ∧ body.IsOwned
  | .rerun b body between => kind b = .rerun ∧ body.IsOwned ∧ between.WrapFree
  | .choice branches => ∀ level ∈ branches.levels, kind level.1 = .alternative ∧ level.2.IsOwned

/-- No wrap is on the levels that a node owns. -/
theorem Item.Proper.wrapFree {kind : β → NodeKind} {item : Item β} (h : item.Proper kind) :
    ∀ level ∈ item.levels, level.WrapFree := by
  cases item with
  | symbol _ | epsilon _ | wrap _ => exact List.forall_mem_nil _
  | optional _ _ | iteration _ _ => exact List.forall_mem_singleton.mpr h.2.2
  | rerun _ _ _ =>
    exact List.forall_mem_cons.mpr ⟨h.2.1.2, List.forall_mem_singleton.mpr h.2.2⟩
  | choice branches => exact List.forall_mem_map.mpr fun level hlevel => (h level hlevel).2.2

/-- The wraps are the nodes of that kind. -/
theorem Item.Proper.kind_mark {kind : β → NodeKind} {item : Item β} (h : item.Proper kind) :
    (kind item.mark != .wrap) = !item.isWrap := by
  have hplain {k : NodeKind} {b : β} (hb : kind b = k) (hk : k ≠ .wrap) :
      (kind b != .wrap) = true := by
    rw [hb]
    exact bne_iff_ne.mpr hk
  cases item with
  | symbol b =>
    have hsymbol : (kind b).isSymbol = true := h
    have hplain : kind b ≠ .wrap := fun hk => by
      rw [hk] at hsymbol
      cases hsymbol
    exact bne_iff_ne.mpr hplain
  | epsilon _ => exact hplain h (by decide)
  | wrap b =>
    have hwrap : kind b = .wrap := h
    rw [Item.mark, hwrap]
    rfl
  | optional _ _ | iteration _ _ | rerun _ _ _ => exact hplain h.1 (by decide)
  | choice branches =>
    obtain ⟨body, hlevels⟩ := Track.levels_eq_head_cons branches
    have hmem : (branches.head, body) ∈ branches.levels := hlevels ▸ List.mem_cons_self
    exact hplain (h _ hmem).1 (by decide)

theorem Track.IsOwned.map {f : β → γ} {t : Track β} (h : t.IsOwned) : (t.map f).IsOwned :=
  ⟨(isStop_map f t).trans h.1, wrapFree_map f t h.2⟩

theorem Track.IsOwned.of_map {f : β → γ} {t : Track β} (h : (t.map f).IsOwned) : t.IsOwned :=
  ⟨(isStop_map f t).symm.trans h.1, wrapFree_of_map t h.2⟩

/-- What is attached to the nodes besides their kind does not matter. -/
theorem Item.proper_map {f : β → γ} {kind : γ → NodeKind} (item : Item β) :
    (item.map f).Proper kind ↔ item.Proper fun b => kind (f b) := by
  have howned (t : Track β) : (t.map f).IsOwned ↔ t.IsOwned := ⟨.of_map, .map⟩
  have hfree (t : Track β) : (t.map f).WrapFree ↔ t.WrapFree :=
    ⟨Track.wrapFree_of_map t, Track.wrapFree_map f t⟩
  cases item with
  | symbol _ | epsilon _ | wrap _ => exact Iff.rfl
  | optional _ body | iteration _ body => simp only [Item.map, Item.Proper, howned]
  | rerun _ body between => simp only [Item.map, Item.Proper, howned, hfree]
  | choice branches =>
    simp only [Item.map, Item.Proper, Track.levels_mapBranches, List.forall_mem_map, howned]

/-- A level that has to be left cannot be empty. -/
theorem Linked.isOwned {arena : Arena} {t : Track NodeId} {next start : Option NodeId}
    (h : Linked Exit.Similar arena (.out next) (.along start) t) (hfree : t.WrapFree) :
    t.IsOwned := by
  refine ⟨?_, hfree⟩
  cases t with
  | stop => exact absurd h.1 Bool.false_ne_true
  | _ => rfl

mutual

/-- **The items of a tree that the links run along are proper,** if no wraps are inside. -/
theorem Linked.items_proper {g : Graph} : ∀ {t : Track NodeId} {leaves into : Exit},
    Linked Exit.Similar g.arena leaves into t → (∀ level ∈ t.inner, level.WrapFree) →
    ∀ item ∈ t.items, item.Proper fun id => (g.spotAt id).node.kind
  | .stop, _, _, _, _, item, hitem => absurd hitem List.not_mem_nil
  | .symbol id rest, _, _, ⟨_, node, hn, hk, _, hr⟩, hfree, item, hitem => by
    rcases List.mem_cons.mp hitem with rfl | hitem
    · rw [Item.Proper, Graph.spotAt_node hn]
      exact hk
    · exact hr.items_proper hfree item hitem
  | .epsilon id rest, _, _, ⟨_, node, hn, hk, hr⟩, hfree, item, hitem
  | .wrap id rest, _, _, ⟨_, node, hn, hk, hr⟩, hfree, item, hitem => by
    rcases List.mem_cons.mp hitem with rfl | hitem
    · rw [Item.Proper, Graph.spotAt_node hn]
      exact hk
    · exact hr.items_proper hfree item hitem
  | .optional id body rest, _, _, ⟨_, node, hn, hk, hb, hr⟩, hfree, item, hitem
  | .iteration id body rest, _, _, ⟨_, node, hn, hk, hb, hr⟩, hfree, item, hitem => by
    simp only [Track.inner, List.forall_mem_cons, List.forall_mem_append] at hfree
    simp only [Track.items, List.mem_cons, List.mem_append] at hitem
    obtain ⟨hbody, hinside, hrest⟩ := hfree
    rcases hitem with rfl | hitem | hitem
    · rw [Item.Proper, Graph.spotAt_node hn]
      exact ⟨hk, hb.isOwned hbody⟩
    · exact hb.items_proper hinside item hitem
    · exact hr.items_proper hrest item hitem
  | .rerun id body between rest, _, _, ⟨_, node, hn, hk, hb, hw, hr⟩, hfree, item, hitem => by
    simp only [Track.inner, List.forall_mem_cons, List.forall_mem_append] at hfree
    simp only [Track.items, List.mem_cons, List.mem_append] at hitem
    obtain ⟨hbody, hinside, hpresent, hback, hrest⟩ := hfree
    rcases hitem with rfl | hitem | hitem | hitem
    · rw [Item.Proper, Graph.spotAt_node hn]
      refine ⟨hk, hb.isOwned hbody, ?_⟩
      cases between with
      | stop => trivial
      | _ => exact hpresent _ (List.mem_singleton_self _)
    · exact hb.items_proper hinside item hitem
    · exact hw.items_proper hback item hitem
    · exact hr.items_proper hrest item hitem
  | .choice branches rest, _, _, ⟨_, node, _, hb, _, hr⟩, hfree, item, hitem => by
    simp only [Track.inner, List.forall_mem_append] at hfree
    simp only [Track.items, List.mem_cons, List.mem_append] at hitem
    rcases hitem with rfl | hitem | hitem
    · exact (hb.items_proper hfree.1).1
    · exact (hb.items_proper hfree.1).2 item hitem
    · exact hr.items_proper hfree.2 item hitem

theorem LinkedBranches.items_proper {g : Graph} : ∀ {bs : Branches NodeId}
    {next start : Option NodeId},
    LinkedBranches Exit.Similar g.arena (.out next) start bs →
    (∀ level ∈ Track.innerBranches bs, level.WrapFree) →
    (∀ level ∈ bs.levels, (g.spotAt level.1).node.kind = .alternative ∧ level.2.IsOwned) ∧
      ∀ item ∈ Track.branchItems bs, item.Proper fun id => (g.spotAt id).node.kind
  | .last id body, _, _, ⟨_, node, hn, hk, _, hb⟩, hfree => by
    obtain ⟨hbody, hinside⟩ := List.forall_mem_cons.mp hfree
    refine ⟨List.forall_mem_singleton.mpr ⟨?_, hb.isOwned hbody⟩, hb.items_proper hinside⟩
    rw [Graph.spotAt_node hn, hk]
  | .more id body others, _, _, ⟨_, node, hn, hk, hb, ho⟩, hfree => by
    simp only [Track.innerBranches, List.forall_mem_cons, List.forall_mem_append] at hfree
    obtain ⟨hbody, hinside, hothers⟩ := hfree
    obtain ⟨hlevels, hitems⟩ := ho.items_proper hothers
    refine ⟨List.forall_mem_cons.mpr ⟨⟨?_, hb.isOwned hbody⟩, hlevels⟩, ?_⟩
    · rw [Graph.spotAt_node hn, hk]
    · exact List.forall_mem_append.mpr ⟨hb.items_proper hinside, hitems⟩

end

end Railroad
