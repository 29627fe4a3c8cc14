/-
# What a plan is built into

`Plan.track` is the tree a plan stands for: sequences inside a sequence are one level, and each
symbol is there with its kind, its name and its style.  `build_made` says that building a plan
adds a fragment with this tree to the draft: its places are the new ones, its symbols are read
from the table through the numbers on the nodes, and nothing that was in the arena before has
changed.

A step of building may relink what was built in the same construct, but never what is older; that
is the frame `Made.below`.

`Made` has what later constructs need to know of a fragment: that it is one (`Built`), what its
nodes show, that older nodes are as they were, and that symbols were only added.  There is a lemma
for each construct here as well, and each has two halves.  The links are settled in
`Railroad.Proofs.Build.Fragment`; what is left is that the new node, and the closing of the parts,
do not change what any node shows.

Most constructs add a node and then close a fragment around it, so that step is taken once
(`Followed`).  From these lemmas `build_made` is put together along the plan, and with the last
step, `Draft.finish`, comes the statement that everything else rests on: what is compiled has the
tree of its plan (`finish_hasTree`).
-/
import Railroad.Build.Compile
import Railroad.Proofs.Build.Fragment

namespace Railroad

/-! ## 1. Trees of plans -/

/-- What a node shows: its symbol as the table has it, if that is of the node's own kind. -/
def Node.leaf? (symbols : SymbolTable) (node : Node) : Option (SymbolKind × Leaf) :=
  match node.kind, node.symbol.bind (symbols.entries[·]?) with
  | .terminal, some (.terminal, name) => some (.terminal, ⟨name, node.style⟩)
  | .nonterminal, some (.nonterminal, name) => some (.nonterminal, ⟨name, node.style⟩)
  | _, _ => none

namespace Build

/-- A tree of what the nodes of a graph show. -/
abbrev Picture := Track (Option (SymbolKind × Leaf))

mutual

/-- **The tree of a plan.**  It is what the compiled graph will read as; nothing in it speaks of
places or links.  Building a plan is right if the graph reads as this tree, and every step of it is
proved to keep to that (`Made`). -/
def Plan.track : Plan → Picture
  | .symbol kind leaf => .symbol (some (kind, leaf)) .stop
  | .epsilon => .epsilon none .stop
  | .sequence items => trackAll items
  | .choice [] => .stop
  | .choice (first :: others) => .choice (addBranches (.last none first.track) others) .stop
  | .optional inner => .optional none inner.track .stop
  | .iteration inner => .iteration none inner.track .stop
  | .rerun body between => .rerun none (trackAll body) (trackAll between) .stop

/-- The trees of some plans, one behind the other. -/
def trackAll : List Plan → Picture
  | [] => .stop
  | item :: rest => item.track.append (trackAll rest)

/-- Branches with the trees of some plans below them. -/
def addBranches (branches : Branches (Option (SymbolKind × Leaf))) :
    List Plan → Branches (Option (SymbolKind × Leaf))
  | [] => branches
  | item :: rest => addBranches (Track.snoc branches none item.track) rest

end

mutual

/-- Nothing that is planned is a wrap. -/
theorem Plan.track_wrapFree : ∀ plan : Plan, plan.track.WrapFree
  | .symbol _ _ => trivial
  | .epsilon => trivial
  | .sequence items => trackAll_wrapFree items
  | .choice [] => trivial
  | .choice (first :: others) => ⟨addBranches_wrapFree others first.track_wrapFree, trivial⟩
  | .optional inner => ⟨inner.track_wrapFree, trivial⟩
  | .iteration inner => ⟨inner.track_wrapFree, trivial⟩
  | .rerun body between => ⟨trackAll_wrapFree body, trackAll_wrapFree between, trivial⟩

theorem trackAll_wrapFree : ∀ items : List Plan, (trackAll items).WrapFree
  | [] => trivial
  | item :: rest => Track.wrapFree_append (trackAll_wrapFree rest) _ item.track_wrapFree

theorem addBranches_wrapFree : ∀ (others : List Plan)
    {branches : Branches (Option (SymbolKind × Leaf))},
    Track.BranchesWrapFree branches → Track.BranchesWrapFree (addBranches branches others)
  | [], _, h => h
  | item :: rest, _, h =>
    addBranches_wrapFree rest (Track.branchesWrapFree_snoc item.track_wrapFree _ h)

end

/-! ## 2. Arenas of drafts -/

namespace Draft

/-- The nodes of a draft by their places. -/
def arena (d : Draft) : Arena := fun id => d.nodes[id]?

/-- What the node at a place shows. -/
def leafAt (d : Draft) (id : NodeId) : Option (SymbolKind × Leaf) :=
  (d.arena id).bind (·.leaf? d.symbols)

/-- Every number of a symbol on a node is one of the table. -/
def Sound (d : Draft) : Prop :=
  ∀ (id : NodeId) (node : Node), d.arena id = some node →
    ∀ s, node.symbol = some s → s < d.symbols.size

theorem exists_node {d : Draft} {id : Nat} (h : id < d.nodes.size) :
    ∃ node, d.arena id = some node :=
  ⟨_, Array.getElem?_eq_getElem h⟩

theorem arena_push (d : Draft) (node : Nat → Node) (id : Nat) :
    (d.push node).1.arena id =
      if id = d.nodes.size then some (node d.nextSerial) else d.arena id := by
  simp only [arena, push]
  rw [Array.getElem?_push]

theorem arena_link (d : Draft) (place : Nat) (next : Option NodeId) (escapes : Bool) (id : Nat) :
    (d.link place next escapes).arena id =
      (d.arena id).map fun node => if id = place then node.link next escapes else node := by
  simp only [arena, link, Array.getElem?_modify]
  by_cases h : place = id
  · subst h
    simp
  · simp [h, Ne.symm h]

theorem arena_linkAll (next : Option NodeId) (escapes : Bool) (id : Nat) :
    ∀ (places : List NodeId) (d : Draft), (d.linkAll places next escapes).arena id =
      (d.arena id).map fun node => if id ∈ places then node.link next escapes else node
  | [], d => by simp [linkAll]
  | place :: places, d => by
    have ih := arena_linkAll next escapes id places (d.link place next escapes)
    rw [linkAll] at ih ⊢
    rw [List.foldl_cons, ih, arena_link, Option.map_map]
    congr 1
    funext node
    by_cases h1 : id = place <;> by_cases h2 : id ∈ places <;> simp [h1, h2, Node.link]

theorem nodes_size_linkAll (next : Option NodeId) (escapes : Bool) : ∀ (places : List NodeId)
    (d : Draft), (d.linkAll places next escapes).nodes.size = d.nodes.size
  | [], d => rfl
  | place :: places, d => by
    rw [linkAll, List.foldl_cons]
    exact (nodes_size_linkAll next escapes places _).trans Array.size_modify

theorem symbols_linkAll (next : Option NodeId) (escapes : Bool) : ∀ (places : List NodeId)
    (d : Draft), (d.linkAll places next escapes).symbols = d.symbols
  | [], _ => rfl
  | place :: places, d => symbols_linkAll next escapes places (d.link place next escapes)

/-- Pointing the open ends of a fragment somewhere. -/
def close (d : Draft) (f : Fragment) (e : Exit) : Draft :=
  (d.link f.tail e.next e.escapes).linkAll f.exits e.next true

theorem arena_close (d : Draft) (f : Fragment) (e : Exit) :
    (d.close f e).arena = f.close e d.arena := by
  funext id
  rw [close, arena_linkAll, arena_link, Option.map_map]
  unfold Fragment.close
  congr 1
  funext node
  by_cases h1 : id = f.tail <;> by_cases h2 : id ∈ f.exits <;> simp [h1, h2, Node.link]

theorem nodes_size_close (d : Draft) (f : Fragment) (e : Exit) :
    (d.close f e).nodes.size = d.nodes.size :=
  (nodes_size_linkAll _ _ _ _).trans Array.size_modify

theorem symbols_close (d : Draft) (f : Fragment) (e : Exit) : (d.close f e).symbols = d.symbols :=
  symbols_linkAll _ _ _ _

/-- Pointing ends somewhere does not change what the nodes show. -/
theorem leafAt_close (d : Draft) (f : Fragment) (e : Exit) (id : NodeId) :
    (d.close f e).leafAt id = d.leafAt id := by
  rw [leafAt, leafAt, arena_close, symbols_close]
  unfold Fragment.close
  cases d.arena id with
  | none => rfl
  | some node =>
    simp only [Option.map_some, Option.bind_some]
    split
    · rfl
    · split <;> rfl

theorem Sound.close {d : Draft} (h : d.Sound) (f : Fragment) (e : Exit) : (d.close f e).Sound := by
  intro id node hn s hs
  rw [symbols_close]
  rw [arena_close, Fragment.close, Option.map_eq_some_iff] at hn
  obtain ⟨before, hbefore, rfl⟩ := hn
  refine h id before hbefore s ?_
  rw [← hs]
  split
  · rfl
  · split <;> rfl

end Draft
/-! ## 3. Symbols keep their numbers -/

end Build

namespace SymbolTable

/-- Symbols are added at the end. -/
theorem prefix_intern (t : SymbolTable) (kind : SymbolKind) (name : String) :
    t.entries <+: (t.intern kind name).1.entries := by
  unfold intern
  split
  · exact List.prefix_rfl
  · exact List.prefix_append _ _

/-- A symbol is at the place of the number that was given to it. -/
theorem entries_intern (t : SymbolTable) (kind : SymbolKind) (name : String) :
    (t.intern kind name).1.entries[(t.intern kind name).2]? = some (kind, name) :=
  entries_lookup (t.lookup_intern kind name)

end SymbolTable

namespace Build

theorem Registry.symbols_use (r : Registry) (kind : SymbolKind) (name : String) :
    (r.use kind name).1.symbols = (r.symbols.intern kind name).1 := by
  unfold use intern
  cases kind with
  | nonterminal => rfl
  | terminal =>
    dsimp only
    split <;> rfl

theorem Registry.number_use (r : Registry) (kind : SymbolKind) (name : String) :
    (r.use kind name).2 = (r.symbols.intern kind name).2 := by
  unfold use intern
  cases kind with
  | nonterminal => rfl
  | terminal =>
    dsimp only
    split <;> rfl

/-! ## 4. What a step of building leaves behind -/

/-- **A step from the draft `d` to `d'` has made a fragment** of the nodes from `lo` on, with the
tree `t` of places and the picture `p` of what they show.  This is the invariant of building: each
step has one lemma that makes a new one of those for its parts. -/
structure Made (d d' : Draft) (lo : Nat) (f : Fragment) (t : Track NodeId) (p : Picture) : Prop where
  /-- Nodes that are older than the fragment are not touched. -/
  below : ∀ id : Nat, id < lo → d'.arena id = d.arena id
  table : d.symbols.entries <+: d'.symbols.entries
  sound : d'.Sound
  built : Built d'.arena lo d'.nodes.size f t
  shown : t.map d'.leafAt = p

/-- What a node shows is settled once it is there. -/
theorem Draft.leafAt_later {d d' : Draft} {id : Nat} (hs : d.Sound) (ha : d'.arena id = d.arena id)
    (ht : d.symbols.entries <+: d'.symbols.entries) : d'.leafAt id = d.leafAt id := by
  rw [leafAt, leafAt, ha]
  cases hn : d.arena id with
  | none => rfl
  | some node =>
    obtain ⟨more, hmore⟩ := ht
    have hsymbol : node.symbol.bind (d'.symbols.entries[·]?)
        = node.symbol.bind (d.symbols.entries[·]?) := by
      cases hsym : node.symbol with
      | none => rfl
      | some s =>
        have hlt : s < d.symbols.entries.length := hs id node hn s hsym
        rw [Option.bind_some, Option.bind_some, ← hmore, List.getElem?_append_left hlt]
    simp only [Option.bind_some, Node.leaf?, hsymbol]

namespace Made

variable {d d₁ d₂ : Draft} {lo : Nat} {f first second inner : Fragment} {s t : Track NodeId}
  {p q : Picture}

/-- A fragment is still what it was after a step that came behind it. -/
theorem later (h : Made d d₁ lo f t p)
    (hbelow : ∀ id : Nat, id < d₁.nodes.size → d₂.arena id = d₁.arena id)
    (htable : d₁.symbols.entries <+: d₂.symbols.entries) :
    Built d₂.arena lo d₁.nodes.size f t ∧ t.map d₂.leafAt = p := by
  refine ⟨h.built.congr fun id _ hid => hbelow id hid, ?_⟩
  rw [← h.shown]
  refine Track.map_congr t fun id hid => ?_
  exact Draft.leafAt_later h.sound (hbelow id ((h.built.mem_iff id).mp hid).2) htable

theorem size_le (h : Made d d₁ lo f t p) : lo ≤ d₁.nodes.size := Nat.le_of_lt h.built.lo_lt_hi

end Made

/-- **A fragment that has just got a node behind it,** at the place `n`. -/
structure Followed (d d' : Draft) (lo n : Nat) (node : Node) (f : Fragment) (t : Track NodeId)
    (p : Picture) : Prop where
  below : ∀ id : Nat, id < lo → d'.arena id = d.arena id
  table : d.symbols.entries <+: d'.symbols.entries
  sound : d'.Sound
  size_eq : d'.nodes.size = n + 1
  node_at : d'.arena n = some node
  built : Built d'.arena lo n f t
  shown : t.map d'.leafAt = p

theorem Made.push {d d₁ : Draft} {lo : Nat} {f : Fragment} {t : Track NodeId} {p : Picture}
    (h : Made d d₁ lo f t p) (node : Nat → Node) (hsym : (node d₁.nextSerial).symbol = none) :
    Followed d (d₁.push node).1 lo d₁.nodes.size (node d₁.nextSerial) f t p := by
  have hold : ∀ id : Nat, id < d₁.nodes.size → (d₁.push node).1.arena id = d₁.arena id := by
    intro id hid
    rw [Draft.arena_push, if_neg (by omega)]
  obtain ⟨hbuilt, hshown⟩ := h.later hold List.prefix_rfl
  constructor
  case below =>
    intro id hid
    have := h.size_le
    rw [hold id (by omega), h.below id hid]
  case table => exact h.table
  case sound =>
    intro id x hx s hs
    rw [Draft.arena_push] at hx
    split at hx
    · obtain rfl := Option.some.inj hx
      exact absurd (hsym.symm.trans hs) (by simp)
    · exact h.sound id x hx s hs
  case size_eq => exact Array.size_push _
  case node_at => rw [Draft.arena_push, if_pos rfl]
  case built => exact hbuilt
  case shown => exact hshown

namespace Followed

variable {d d₁ d₂ : Draft} {lo n : Nat} {node : Node} {inner second : Fragment} {s t : Track NodeId}
  {p q : Picture}

/-- A node that is no symbol shows nothing. -/
theorem leafAt_node (h : Followed d d₁ lo n node inner t p) (hk : node.kind.isSymbol = false) :
    d₁.leafAt n = none := by
  rw [Draft.leafAt, h.node_at, Option.bind_some, Node.leaf?]
  cases hkind : node.kind <;> simp_all [NodeKind.isSymbol]

/-- The node is the whole of a new fragment, which is left from inside as well. -/
theorem open_around (h : Followed d d₁ lo n node inner t p) (hk : node.kind = .optional)
    (ho : node.exit = .along none) (hs : node.sub = some inner.entry) :
    Made d d₁ lo ⟨n, n, inner.openEnds⟩ (.optional n t .stop) (.optional none p .stop) where
  below := h.below
  table := h.table
  sound := h.sound
  built := h.size_eq ▸ h.built.optional h.node_at ho hk hs
  shown := by
    rw [Track.map, h.leafAt_node (by rw [hk]; rfl), h.shown]
    rfl

theorem open_branch (h : Followed d d₁ lo n node inner t p) (hk : node.kind = .alternative)
    (ho : node.exit = .along none) (hs : node.sub = some inner.entry) (hd : node.down = none) :
    Made d d₁ lo ⟨n, n, inner.openEnds⟩ (.choice (.last n t) .stop)
      (.choice (.last none p) .stop) where
  below := h.below
  table := h.table
  sound := h.sound
  built := h.size_eq ▸ h.built.firstBranch h.node_at ho hk hs hd
  shown := by
    rw [Track.map, Track.mapBranches, h.leafAt_node (by rw [hk]; rfl), h.shown]
    rfl

/-- Pointing the ends of the fragment at the node changes nothing before it. -/
theorem close_below (h : Followed d d₁ lo n node inner t p) (e : Exit) {id : Nat} (hid : id < lo) :
    (d₁.close inner e).arena id = d.arena id := by
  rw [Draft.arena_close, h.built.close_outside (.inl hid), h.below id hid]

theorem loop (h : Followed d d₁ lo n node inner t p) (hk : node.kind = .iteration)
    (ho : node.exit = .along none) (hs : node.sub = some inner.entry) :
    Made d (d₁.close inner (.out (some n))) lo ⟨n, n, []⟩ (.iteration n t .stop)
      (.iteration none p .stop) where
  below _ hid := h.close_below _ hid
  table := by rw [Draft.symbols_close]; exact h.table
  sound := h.sound.close _ _
  built := by
    rw [Draft.arena_close, Draft.nodes_size_close, h.size_eq]
    exact h.built.iteration h.node_at ho hk hs
  shown := by
    rw [Track.map_congr _ fun id _ => Draft.leafAt_close d₁ inner _ id, Track.map,
      h.leafAt_node (by rw [hk]; rfl), h.shown]
    rfl

theorem rerun (h : Followed d d₁ lo n node inner t p) (hk : node.kind = .rerun)
    (ho : node.exit = .along none) (hs : node.sub = some inner.entry) (hw : node.between = none) :
    Made d (d₁.close inner (.out (some n))) lo ⟨n, n, []⟩ (.rerun n t .stop .stop)
      (.rerun none p .stop .stop) where
  below _ hid := h.close_below _ hid
  table := by rw [Draft.symbols_close]; exact h.table
  sound := h.sound.close _ _
  built := by
    rw [Draft.arena_close, Draft.nodes_size_close, h.size_eq]
    exact h.built.rerun h.node_at ho hk hs hw
  shown := by
    rw [Track.map_congr _ fun id _ => Draft.leafAt_close d₁ inner _ id, Track.map,
      h.leafAt_node (by rw [hk]; rfl), h.shown]
    rfl

end Followed

namespace Made

variable {d d₁ d₂ : Draft} {lo : Nat} {first second group inner : Fragment} {s t : Track NodeId}
  {p q : Picture}

/-! ## 5. The ways to make a fragment -/

/-- The node of a symbol. -/
def symbolNode (d : Draft) (kind : SymbolKind) (leaf : Leaf) : Node where
  serial := (d.toRegistry.use kind leaf.name).1.nextSerial
  kind := match kind with
    | .terminal => .terminal
    | .nonterminal => .nonterminal
  symbol := some (d.toRegistry.use kind leaf.name).2
  style := leaf.style

theorem arena_symbol (d : Draft) (kind : SymbolKind) (leaf : Leaf) (id : Nat) :
    (d.symbol kind leaf).1.arena id =
      if id = d.nodes.size then some (symbolNode d kind leaf) else d.arena id :=
  Draft.arena_push { (d.toRegistry.use kind leaf.name).1 with nodes := d.nodes }
    (fun serial => { symbolNode d kind leaf with serial }) id

/-- A symbol gets the number that its kind and name have in the table, or the next one. -/
theorem symbol (d : Draft) (hd : d.Sound) (kind : SymbolKind) (leaf : Leaf) :
    Made d (d.symbol kind leaf).1 d.nodes.size (d.symbol kind leaf).2 (.symbol d.nodes.size .stop)
      (.symbol (some (kind, leaf)) .stop) := by
  have hsym : (symbolNode d kind leaf).symbol = some (d.symbols.intern kind leaf.name).2 :=
    congrArg some (d.toRegistry.number_use kind leaf.name)
  have htable : (d.symbol kind leaf).1.symbols = (d.symbols.intern kind leaf.name).1 :=
    d.toRegistry.symbols_use kind leaf.name
  have hsize : (d.symbol kind leaf).1.nodes.size = d.nodes.size + 1 := Array.size_push _
  have hentry := d.symbols.entries_intern kind leaf.name
  have hsymbol : (symbolNode d kind leaf).kind.isSymbol = true := by cases kind <;> rfl
  have hat : (d.symbol kind leaf).1.arena d.nodes.size = some (symbolNode d kind leaf) := by
    rw [arena_symbol, if_pos rfl]
  constructor
  case below =>
    intro id hid
    rw [arena_symbol, if_neg (by omega)]
  case table =>
    rw [htable]
    exact d.symbols.prefix_intern kind leaf.name
  case sound =>
    intro id x hx s hs
    rw [arena_symbol] at hx
    rw [htable]
    split at hx
    · obtain rfl := Option.some.inj hx
      obtain rfl := Option.some.inj (hsym.symm.trans hs)
      exact (List.getElem?_eq_some_iff.mp hentry).1
    · exact Nat.lt_of_lt_of_le (hd id x hx s hs) (d.symbols.prefix_intern kind leaf.name).length_le
  case built =>
    rw [hsize]
    exact Built.symbol hat rfl hsymbol (by rw [hsym]; rfl)
  case shown =>
    rw [Track.map, Draft.leafAt, hat, Option.bind_some, Node.leaf?, hsym, Option.bind_some, htable,
      hentry]
    cases kind <;> rfl

theorem epsilon (d : Draft) (hd : d.Sound) :
    Made d d.epsilon.1 d.nodes.size d.epsilon.2 (.epsilon d.nodes.size .stop)
      (.epsilon none .stop) := by
  have hat : d.epsilon.1.arena d.nodes.size = some { serial := d.nextSerial, kind := .epsilon } := by
    rw [Draft.epsilon, Draft.single, Draft.arena_push, if_pos rfl]
  constructor
  case below =>
    intro id hid
    rw [Draft.epsilon, Draft.single, Draft.arena_push, if_neg (by omega)]
  case table => exact List.prefix_rfl
  case sound =>
    intro id x hx s hs
    rw [Draft.epsilon, Draft.single, Draft.arena_push] at hx
    split at hx
    · obtain rfl := Option.some.inj hx
      exact absurd hs (by simp)
    · exact hd id x hx s hs
  case built =>
    rw [show d.epsilon.1.nodes.size = d.nodes.size + 1 from Array.size_push _]
    exact Built.epsilon hat rfl rfl
  case shown =>
    rw [Track.map, Draft.leafAt, hat]
    rfl

/-- **One fragment behind the other,** the second made after the first. -/
theorem sequence (h₁ : Made d d₁ lo first t p) (h₂ : Made d₁ d₂ d₁.nodes.size second s q) :
    Made d (d₂.sequence first second).1 lo (d₂.sequence first second).2 (t.append s)
      (p.append q) := by
  obtain ⟨hbuilt, hshown⟩ := h₁.later h₂.below h₂.table
  show Made d (d₂.close first (.along (some second.entry))) lo
    { second with entry := first.entry } _ _
  constructor
  case below =>
    intro id hid
    have := h₁.size_le
    rw [Draft.arena_close, hbuilt.close_outside (.inl hid), h₂.below id (by omega), h₁.below id hid]
  case table =>
    rw [Draft.symbols_close]
    exact h₁.table.trans h₂.table
  case sound => exact h₂.sound.close _ _
  case built =>
    rw [Draft.arena_close, Draft.nodes_size_close]
    exact hbuilt.sequence h₂.built
  case shown =>
    rw [Track.map_congr _ fun id _ => Draft.leafAt_close d₂ first _ id, Track.map_append, hshown,
      h₂.shown]

/-- **A rerun over a second level.** -/
theorem rerunOver {node : Node} {n : Nat} (h₁ : Made d d₁ lo inner t p)
    (h₂ : Followed d₁ d₂ d₁.nodes.size n node second s q) (hk : node.kind = .rerun)
    (ho : node.exit = .along none) (hs : node.sub = some inner.entry)
    (hw : node.between = some second.entry) :
    Made d ((d₂.close inner (.out (some n))).close second (.out (some n))) lo ⟨n, n, []⟩
      (.rerun n t s .stop) (.rerun none p q .stop) := by
  obtain ⟨hbuilt, hshown⟩ := h₁.later h₂.below h₂.table
  constructor
  case below =>
    intro id hid
    have := h₁.size_le
    rw [Draft.arena_close, Draft.arena_close, h₂.built.close_outside (.inl (by omega)),
      hbuilt.close_outside (.inl hid), h₂.below id (by omega), h₁.below id hid]
  case table =>
    rw [Draft.symbols_close, Draft.symbols_close]
    exact h₁.table.trans h₂.table
  case sound => exact (h₂.sound.close _ _).close _ _
  case built =>
    rw [Draft.arena_close, Draft.arena_close, Draft.nodes_size_close, Draft.nodes_size_close,
      h₂.size_eq]
    exact hbuilt.rerunOver h₂.built h₂.node_at ho hk hs hw
  case shown =>
    rw [Track.map_congr _ fun id _ => (Draft.leafAt_close _ second _ id).trans
        (Draft.leafAt_close d₂ inner _ id), Track.map, h₂.leafAt_node (by rw [hk]; rfl), hshown,
      h₂.shown]
    rfl

/-- The draft with the node of a further branch, before the branch above leads down to it. -/
def branchPushed (d : Draft) (inner : Fragment) : Draft :=
  (d.push fun serial => { serial, kind := .alternative, sub := some inner.entry }).1

theorem arena_branch (d : Draft) (group inner : Fragment) (above id : Nat) :
    (d.branch group above inner).1.arena id = ((branchPushed d inner).arena id).map
      fun node => if id = above then { node with down := some d.nodes.size } else node := by
  show (Array.modify _ above _)[id]? = _
  rw [Array.getElem?_modify]
  by_cases h : above = id
  · subst h
    simp [Draft.arena, branchPushed, Draft.push]
  · simp [h, Ne.symm h, Draft.arena, branchPushed, Draft.push]

theorem leafAt_branch (d : Draft) (group inner : Fragment) (above id : Nat) :
    (d.branch group above inner).1.leafAt id = (branchPushed d inner).leafAt id := by
  rw [Draft.leafAt, Draft.leafAt, arena_branch]
  cases (branchPushed d inner).arena id with
  | none => rfl
  | some node =>
    simp only [Option.map_some, Option.bind_some]
    split <;> rfl

/-- **A further branch of an alternation,** made after the group. -/
theorem branch {bs : Branches NodeId} {ps : Branches (Option (SymbolKind × Leaf))}
    (h₁ : Made d d₁ lo group (.choice bs .stop) (.choice ps .stop))
    (h₂ : Made d₁ d₂ d₁.nodes.size inner t p) :
    Made d (d₂.branch group bs.lastMark inner).1 lo (d₂.branch group bs.lastMark inner).2.1
      (.choice (Track.snoc bs d₂.nodes.size t) .stop) (.choice (Track.snoc ps none p) .stop) := by
  have hnew : Followed d₁ (branchPushed d₂ inner) d₁.nodes.size d₂.nodes.size _ inner t p :=
    h₂.push (fun serial => { serial, kind := .alternative, sub := some inner.entry }) rfl
  obtain ⟨hbuilt, hshown⟩ := h₁.later hnew.below hnew.table
  have hlast : bs.lastMark ∈ (Track.choice bs .stop).toList :=
    List.mem_append_left _ (Track.mem_branchList_of_mem_marks bs (Track.lastMark_mem_marks bs))
  have hrange := (hbuilt.mem_iff _).mp hlast
  have hlt : bs.lastMark < (branchPushed d₂ inner).nodes.size := by
    rw [hnew.size_eq]
    exact Nat.lt_succ_of_lt (Nat.lt_trans hrange.2 hnew.built.lo_lt_hi)
  obtain ⟨above, habove⟩ := Draft.exists_node hlt
  have harena : ∀ id : Nat, (d₂.branch group bs.lastMark inner).1.arena id =
      if id = bs.lastMark then some { above with down := some d₂.nodes.size }
      else (branchPushed d₂ inner).arena id := by
    intro id
    rw [arena_branch]
    by_cases h : id = bs.lastMark
    · rw [if_pos h, h, habove]
      simp
    · simp [h]
  constructor
  case below =>
    intro id hid
    have hne : id ≠ bs.lastMark := fun h => Nat.not_lt.mpr hrange.1 (h ▸ hid)
    have := h₁.size_le
    rw [harena, if_neg hne, hnew.below id (by omega), h₁.below id hid]
  case table => exact h₁.table.trans hnew.table
  case sound =>
    intro id x hx s hs
    rw [arena_branch, Option.map_eq_some_iff] at hx
    obtain ⟨before, hbefore, rfl⟩ := hx
    refine hnew.sound id before hbefore s ?_
    rw [← hs]
    split <;> rfl
  case built =>
    have hsize : (d₂.branch group bs.lastMark inner).1.nodes.size = d₂.nodes.size + 1 :=
      Array.size_modify.trans hnew.size_eq
    rw [hsize]
    exact hbuilt.branch hnew.built hnew.node_at rfl rfl rfl habove harena
  case shown =>
    have hgroup := (Track.choice.inj hshown).1
    rw [Track.map_congr _ fun id _ => leafAt_branch d₂ group inner bs.lastMark id, Track.map,
      Track.mapBranches_snoc, hgroup, hnew.leafAt_node rfl, hnew.shown]
    rfl

end Made

/-! ## 6. Building a plan -/

theorem perform_apply {α : Type} (f : Draft → Draft × α) (d : Draft) :
    perform f d = .ok (f d).2 (f d).1 := rfl

/-- A step that is made of two succeeds if they do. -/
theorem bind_eq_ok {α β : Type} {x : BuildM α} {k : α → BuildM β} {d d' : Draft} {b : β}
    (h : (x >>= k) d = .ok b d') : ∃ a d₁, x d = .ok a d₁ ∧ k a d₁ = .ok b d' := by
  cases hx : x d with
  | ok a d₁ =>
    simp only [bind, EStateM.bind, hx] at h
    exact ⟨a, d₁, rfl, h⟩
  | error e d₁ =>
    simp only [bind, EStateM.bind, hx] at h
    exact absurd h (by simp)

theorem perform_eq_ok {α : Type} {f : Draft → Draft × α} {d d' : Draft} {a : α}
    (h : perform f d = .ok a d') : (f d).1 = d' ∧ (f d).2 = a := by
  rw [perform_apply, EStateM.Result.ok.injEq] at h
  exact ⟨h.2, h.1⟩

mutual

/-- **Building a plan makes a fragment with the tree of the plan.**  The hypothesis that building
succeeds is discharged by the absence of faults (`Railroad.Proofs.Build.Faults`). -/
theorem build_made : ∀ (plan : Plan) {d d' : Draft} {f : Fragment}, d.Sound →
    build plan d = .ok f d' → ∃ t, Made d d' d.nodes.size f t plan.track
  | .symbol kind leaf, d, d', f, hd, h => by
    rw [build] at h
    obtain ⟨rfl, rfl⟩ := perform_eq_ok h
    exact ⟨_, Made.symbol d hd kind leaf⟩
  | .epsilon, d, d', f, hd, h => by
    rw [build] at h
    obtain ⟨rfl, rfl⟩ := perform_eq_ok h
    exact ⟨_, Made.epsilon d hd⟩
  | .sequence items, d, d', f, hd, h => by
    rw [build] at h
    exact buildSequence_made items hd h
  | .choice [], d, d', f, hd, h => by
    rw [build] at h
    exact absurd h (by intro h; cases h)
  | .choice (first :: others), d, d', f, hd, h => by
    rw [build] at h
    obtain ⟨inner, d₁, hfirst, h⟩ := bind_eq_ok h
    obtain ⟨group, d₂, hgroup, h⟩ := bind_eq_ok h
    obtain ⟨rfl, rfl⟩ := perform_eq_ok hgroup
    obtain ⟨t, ht⟩ := build_made first hd hfirst
    have hopen := (ht.push (fun serial => { serial, kind := .alternative, sub := some inner.entry })
      rfl).open_branch rfl rfl rfl rfl
    obtain ⟨bs, hbs⟩ := buildBranches_made others hopen h
    exact ⟨_, hbs⟩
  | .optional inner, d, d', f, hd, h => by
    rw [build] at h
    obtain ⟨fi, d₁, hinner, h⟩ := bind_eq_ok h
    obtain ⟨rfl, rfl⟩ := perform_eq_ok h
    obtain ⟨t, ht⟩ := build_made inner hd hinner
    exact ⟨_, (ht.push (fun serial => { serial, kind := .optional, sub := some fi.entry })
      rfl).open_around rfl rfl rfl⟩
  | .iteration inner, d, d', f, hd, h => by
    rw [build] at h
    obtain ⟨fi, d₁, hinner, h⟩ := bind_eq_ok h
    obtain ⟨rfl, rfl⟩ := perform_eq_ok h
    obtain ⟨t, ht⟩ := build_made inner hd hinner
    exact ⟨_, (ht.push (fun serial => { serial, kind := .iteration, sub := some fi.entry })
      rfl).loop rfl rfl rfl⟩
  | .rerun body [], d, d', f, hd, h => by
    rw [build] at h
    obtain ⟨fb, d₁, hbody, h⟩ := bind_eq_ok h
    obtain ⟨between, d₂, hbetween, h⟩ := bind_eq_ok h
    obtain ⟨rfl, rfl⟩ : none = between ∧ d₁ = d₂ := by
      cases hbetween
      exact ⟨rfl, rfl⟩
    obtain ⟨rfl, rfl⟩ := perform_eq_ok h
    obtain ⟨t, ht⟩ := buildSequence_made body hd hbody
    exact ⟨_, (ht.push (fun serial => { serial, kind := .rerun, sub := some fb.entry })
      rfl).rerun rfl rfl rfl rfl⟩
  | .rerun body (item :: rest), d, d', f, hd, h => by
    rw [build] at h
    obtain ⟨fb, d₁, hbody, h⟩ := bind_eq_ok h
    obtain ⟨between, d₂, hbetween, h⟩ := bind_eq_ok h
    obtain ⟨fw, d₂', hitems, hsome⟩ := bind_eq_ok hbetween
    obtain ⟨rfl, rfl⟩ : some fw = between ∧ d₂' = d₂ := by
      cases hsome
      exact ⟨rfl, rfl⟩
    obtain ⟨rfl, rfl⟩ := perform_eq_ok h
    obtain ⟨t, ht⟩ := buildSequence_made body hd hbody
    obtain ⟨s, hs⟩ := buildSequence_made (item :: rest) ht.sound hitems
    exact ⟨_, ht.rerunOver (hs.push (fun serial =>
      { serial, kind := .rerun, sub := some fb.entry, between := some fw.entry }) rfl) rfl rfl rfl rfl⟩

theorem buildSequence_made : ∀ (items : List Plan) {d d' : Draft} {f : Fragment}, d.Sound →
    buildSequence items d = .ok f d' → ∃ t, Made d d' d.nodes.size f t (trackAll items)
  | [], d, d', f, hd, h => by
    rw [buildSequence] at h
    exact absurd h (by intro h; cases h)
  | first :: rest, d, d', f, hd, h => by
    rw [buildSequence] at h
    obtain ⟨before, d₁, hfirst, h⟩ := bind_eq_ok h
    obtain ⟨t, ht⟩ := build_made first hd hfirst
    exact buildBehind_made rest ht h

theorem buildBehind_made : ∀ (rest : List Plan) {d₀ d d' : Draft} {lo : Nat} {before f : Fragment}
    {t : Track NodeId} {p : Picture}, Made d₀ d lo before t p → buildBehind before rest d = .ok f d' →
    ∃ t', Made d₀ d' lo f t' (p.append (trackAll rest))
  | [], d₀, d, d', lo, before, f, t, p, hm, h => by
    rw [buildBehind] at h
    cases h
    exact ⟨t, (Track.append_stop p).symm ▸ hm⟩
  | item :: rest, d₀, d, d', lo, before, f, t, p, hm, h => by
    rw [buildBehind] at h
    obtain ⟨fi, d₁, hitem, h⟩ := bind_eq_ok h
    obtain ⟨both, d₂, hboth, h⟩ := bind_eq_ok h
    obtain ⟨rfl, rfl⟩ := perform_eq_ok hboth
    obtain ⟨s, hs⟩ := build_made item hm.sound hitem
    rw [trackAll, ← Track.append_assoc]
    exact buildBehind_made rest (hm.sequence hs) h

theorem buildBranches_made : ∀ (others : List Plan) {d₀ d d' : Draft} {lo : Nat}
    {group f : Fragment} {bs : Branches NodeId} {ps : Branches (Option (SymbolKind × Leaf))},
    Made d₀ d lo group (.choice bs .stop) (.choice ps .stop) →
    buildBranches group bs.lastMark others d = .ok f d' →
    ∃ bs', Made d₀ d' lo f (.choice bs' .stop) (.choice (addBranches ps others) .stop)
  | [], d₀, d, d', lo, group, f, bs, ps, hm, h => by
    rw [buildBranches] at h
    cases h
    exact ⟨bs, hm⟩
  | item :: rest, d₀, d, d', lo, group, f, bs, ps, hm, h => by
    rw [buildBranches] at h
    obtain ⟨fi, d₁, hitem, h⟩ := bind_eq_ok h
    obtain ⟨both, d₂, hboth, h⟩ := bind_eq_ok h
    obtain ⟨rfl, rfl⟩ := perform_eq_ok hboth
    obtain ⟨s, hs⟩ := build_made item hm.sound hitem
    refine buildBranches_made rest (hm.branch hs) ?_
    rw [Track.lastMark_snoc]
    exact h

end

/-! ## 7. The finished graph -/

/-- Finishing a graph points its fragment nowhere: the last node of the top level leads nowhere
already, and every end further inside leaves to nowhere. -/
theorem arena_finish {d : Draft} {lo hi : Nat} {f : Fragment} {t : Track NodeId}
    (h : Built d.arena lo hi f t) : (d.finish f).arena = f.close (.along none) d.arena := by
  obtain ⟨tail, htail, hopen⟩ := h.tail_open
  funext id
  show (d.linkAll f.exits none true).arena id = _
  rw [Draft.arena_linkAll]
  unfold Fragment.close
  by_cases heq : id = f.tail
  · rw [heq, htail]
    have hlink : tail.link none false = tail := by
      obtain ⟨hnext, hescapes⟩ := Exit.mk.inj hopen
      rw [Node.link, ← hnext, ← hescapes]
    simp only [Option.map_some, if_true, Exit.along, hlink]
  · simp only [heq, if_false, Exit.along]

/-- **What is built from scratch is finished to a graph with a tree,** the tree of the plan. -/
theorem finish_hasTree {r : Registry} {plan : Plan} {d : Draft} {f : Fragment}
    (h : build plan { r with } = .ok f d) :
    ∃ t, (d.finish f).HasTree Eq t ∧
      t.map (fun id => ((d.finish f).arena id).bind (·.leaf? d.symbols)) = plan.track := by
  have hempty : Draft.Sound { r with } := fun id node hn => absurd hn (by simp [Draft.arena])
  obtain ⟨t, hmade⟩ := build_made plan hempty h
  have hbuilt := hmade.built
  have hsize : (d.finish f).nodes.size = d.nodes.size := Draft.nodes_size_linkAll _ _ _ _
  refine ⟨t, ⟨?_, hbuilt.nodup, fun id => ?_⟩, ?_⟩
  · rw [arena_finish hbuilt]
    exact hbuilt.leads (.along none)
  · rw [hsize, hbuilt.mem_iff]
    exact ⟨fun h => h.2, fun h => ⟨Nat.zero_le _, h⟩⟩
  · rw [← hmade.shown, arena_finish hbuilt, ← Draft.arena_close,
      ← Draft.symbols_close d f (.along none)]
    exact Track.map_congr t fun id _ => Draft.leafAt_close d f _ id

/-- A graph is what building has come to, finished. -/
theorem compile_eq_finish {r s : Registry} {collapsing : Bool} {p : Production} {g : Graph}
    (h : compile r collapsing p = (.ok g, s)) :
    ∃ f d, build (Plan.ofExpr collapsing p.expr) { r with } = .ok f d ∧ d.finish f = g ∧
      d.toRegistry = s := by
  unfold compile at h
  split at h
  case h_1 => cases h
  case h_2 f d hbuild =>
    dsimp only at h
    split at h
    case h_1 =>
      cases h
      exact ⟨f, d, hbuild, rfl, rfl⟩
    case h_2 => cases h

end Build
end Railroad
