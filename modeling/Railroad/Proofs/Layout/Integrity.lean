/-
# What layouts leave of a graph

A layout puts wraps into the graph it lays out, and they stay there.  Otherwise the graph is what
it was (`afterLayouts_intact`): it is closed and says the same, its nodes have their links, symbols,
styles and serial numbers, and only behind a node of the top level may a wrap have come, which leads
on to the node that followed there.

Most of that is read off `Wrapped`.  The serial numbers are another matter, for a wrap gets one of
its own; it is larger than all numbers of the graph (`Graph.serial_lt_nextSerial`).

No statement here speaks of boxes or of settings.  A layout changes a graph by `Graph.breakAfterAll`
only, and what that does is independent of where the breaks come from.  So the layouts that have
gone before may have been over any rulers, and may have ended in errors.
-/
import Railroad.Graph.Printer
import Railroad.Proofs.Build.Serials
import Railroad.Proofs.Graph.Levels
import Railroad.Proofs.Layout.History

namespace Railroad

open Scalar

/-! ## 1. Trees with wraps -/

namespace Track

variable {β γ : Type}

@[simp] theorem chain_behind (wrap : Option β) (rest : Track β) :
    (behind wrap rest).chain = wrap.toList ++ rest.chain := by
  cases wrap <;> rfl

@[simp] theorem texts_behind (symbol : β → String) (wrap : Option β) (rest : Track β) :
    (behind wrap rest).texts symbol = rest.texts symbol := by
  cases wrap <;> rfl

/-- Each node of the level is followed by its wrap. -/
theorem chain_withWraps (w : β → Option β) (t : Track β) :
    (t.withWraps w).chain = t.chain.flatMap fun b => b :: (w b).toList := by
  cases t with
  | stop => rfl
  | symbol _ rest | epsilon _ rest | wrap _ rest | optional _ _ rest | iteration _ _ rest
  | rerun _ _ _ rest | choice _ rest =>
    rw [withWraps, chain, chain, chain_behind, chain_withWraps w rest]
    rfl

/-- A wrap has no text. -/
theorem texts_withWraps (symbol : β → String) (w : β → Option β) (t : Track β) :
    (t.withWraps w).texts symbol = t.texts symbol := by
  cases t with
  | stop => rfl
  | symbol _ rest | epsilon _ rest | wrap _ rest | optional _ _ rest | iteration _ _ rest
  | rerun _ _ _ rest | choice _ rest =>
    simp only [withWraps, texts, texts_behind, texts_withWraps symbol w rest]

mutual

theorem texts_map (symbol : γ → String) (f : β → γ) : ∀ t : Track β,
    (t.map f).texts symbol = t.texts fun b => symbol (f b)
  | .stop => rfl
  | .symbol _ rest | .epsilon _ rest | .wrap _ rest => by
    simp only [map, texts, texts_map symbol f rest]
  | .optional _ body rest | .iteration _ body rest => by
    simp only [map, texts, texts_map symbol f body, texts_map symbol f rest]
  | .rerun _ body between rest => by
    simp only [map, texts, texts_map symbol f body, texts_map symbol f between,
      texts_map symbol f rest, isStop_map]
  | .choice branches rest => by
    simp only [map, texts, branchTexts_mapBranches symbol f branches, texts_map symbol f rest]

theorem branchTexts_mapBranches (symbol : γ → String) (f : β → γ) : ∀ bs : Branches β,
    branchTexts symbol (mapBranches f bs) = branchTexts (fun b => symbol (f b)) bs
  | .last _ body => by simp only [mapBranches, branchTexts, texts_map symbol f body]
  | .more _ body others => by
    simp only [mapBranches, branchTexts, texts_map symbol f body,
      branchTexts_mapBranches symbol f others]

end

mutual

/-- The nodes of the levels inside are nodes of the tree. -/
theorem mem_toList_of_mem_inner {b : β} {level : Track β} (hb : b ∈ level.toList) :
    ∀ t : Track β, level ∈ t.inner → b ∈ t.toList
  | .stop, h => absurd h List.not_mem_nil
  | .symbol _ rest, h | .epsilon _ rest, h | .wrap _ rest, h =>
    List.mem_cons_of_mem _ (mem_toList_of_mem_inner hb rest h)
  | .optional _ body rest, h | .iteration _ body rest, h => by
    simp only [inner, List.mem_cons, List.mem_append] at h
    refine List.mem_cons_of_mem _ (List.mem_append.mpr ?_)
    rcases h with rfl | h | h
    · exact .inl hb
    · exact .inl (mem_toList_of_mem_inner hb body h)
    · exact .inr (mem_toList_of_mem_inner hb rest h)
  | .rerun _ body between rest, h => by
    simp only [inner, List.mem_cons, List.mem_append] at h
    simp only [toList, List.mem_cons, List.mem_append]
    rcases h with rfl | h | h | h | h
    · exact .inr (.inl (.inl hb))
    · exact .inr (.inl (.inl (mem_toList_of_mem_inner hb body h)))
    · obtain rfl := eq_of_mem_present h
      exact .inr (.inl (.inr hb))
    · exact .inr (.inl (.inr (mem_toList_of_mem_inner hb between h)))
    · exact .inr (.inr (mem_toList_of_mem_inner hb rest h))
  | .choice branches rest, h => by
    refine List.mem_append.mpr ?_
    rcases List.mem_append.mp h with h | h
    · exact .inl (mem_branchList_of_mem_inner hb branches h)
    · exact .inr (mem_toList_of_mem_inner hb rest h)

theorem mem_branchList_of_mem_inner {b : β} {level : Track β} (hb : b ∈ level.toList) :
    ∀ bs : Branches β, level ∈ innerBranches bs → b ∈ branchList bs
  | .last _ body, h => by
    rcases List.mem_cons.mp h with rfl | h
    · exact List.mem_cons_of_mem _ hb
    · exact List.mem_cons_of_mem _ (mem_toList_of_mem_inner hb body h)
  | .more _ body others, h => by
    simp only [innerBranches, List.mem_cons, List.mem_append] at h
    refine List.mem_cons_of_mem _ (List.mem_append.mpr ?_)
    rcases h with rfl | h | h
    · exact .inl hb
    · exact .inl (mem_toList_of_mem_inner hb body h)
    · exact .inr (mem_branchList_of_mem_inner hb others h)

end

end Track

/-! ## 2. Serial numbers -/

namespace Graph

/-- The serial numbers of the nodes, by their places. -/
def serials (g : Graph) : List Nat := g.nodes.toList.map (·.serial)

theorem foldl_max_serial (nodes : List Node) (top : Nat) :
    top ≤ nodes.foldl (fun top node => max top (node.serial + 1)) top ∧
      ∀ node ∈ nodes,
        node.serial < nodes.foldl (fun top node => max top (node.serial + 1)) top := by
  induction nodes generalizing top with
  | nil => simp
  | cons node nodes ih =>
    obtain ⟨hle, hlt⟩ := ih (max top (node.serial + 1))
    rw [List.foldl_cons, List.forall_mem_cons]
    refine ⟨by omega, by omega, hlt⟩

/-- The next serial number is larger than all that are there. -/
theorem serial_lt_nextSerial {g : Graph} {n : Nat} (h : n ∈ g.serials) : n < g.nextSerial := by
  obtain ⟨node, hnode, rfl⟩ := List.mem_map.mp h
  rw [nextSerial, ← Array.foldl_toList]
  exact (foldl_max_serial g.nodes.toList 0).2 node hnode

theorem serials_insertWrap (g : Graph) (id : NodeId) :
    (g.insertWrap id).serials = g.serials ++ [g.nextSerial] := by
  have hlink : ∀ nodes : List Node, (nodes.modify id (·.link (some g.nodes.size) false)).map
      (·.serial) = nodes.map (·.serial) := by
    intro nodes
    refine List.ext_getElem? fun x => ?_
    rw [List.getElem?_map, List.getElem?_map, List.getElem?_modify]
    cases nodes[x]? with
    | none => rfl
    | some node =>
      simp only [Option.map_eq_map, Option.map_some]
      split <;> rfl
  simp only [serials, insertWrap, modify, Array.toList_modify, hlink, Array.toList_push,
    List.map_append, List.map_cons, List.map_nil]

/-- **Another wrap gets another number.** -/
theorem serials_breakAfter {g : Graph} (h : g.serials.Nodup) (id : NodeId) :
    (g.breakAfter id).1.serials.Nodup := by
  unfold breakAfter
  split
  · exact h
  · rw [serials_insertWrap, List.nodup_append]
    refine ⟨h, List.nodup_singleton _, ?_⟩
    intro a ha b hb
    rw [List.mem_singleton.mp hb]
    exact Nat.ne_of_lt (serial_lt_nextSerial ha)

theorem serials_breakAfterAll : ∀ (ids : List NodeId) {g : Graph}, g.serials.Nodup →
    (g.breakAfterAll ids).1.serials.Nodup
  | [], _, h => h
  | id :: ids, _, h => serials_breakAfterAll ids (serials_breakAfter h id)

/-- **Layouts keep serial numbers apart.** -/
theorem serials_afterLayouts {α : Type} [Scalar α] : ∀ (rulers : List (Ruler α)) {g : Graph},
    g.serials.Nodup → (g.afterLayouts rulers).serials.Nodup
  | [], _, h => h
  | r :: rulers, g, h => by
    refine serials_afterLayouts rulers (g := (g.layout r).2) ?_
    rw [layout_snd, breakRows_eq]
    exact serials_breakAfterAll _ h

end Graph

/-- The serial numbers of a compiled graph follow each other. -/
theorem Build.serials_of_compile {registry : Registry} {collapsing : Bool} {p : Production}
    {g : Graph} (h : (compile registry collapsing p).1 = .ok g) :
    g.serials = List.range' registry.nextSerial g.nodes.size := by
  refine List.ext_getElem (by simp [Graph.serials]) fun id hid _ => ?_
  have hlt : id < g.nodes.size := by simpa [Graph.serials] using hid
  have hserial := serial_of_compile h (Array.getElem?_eq_getElem hlt)
  simpa [Graph.serials] using hserial

/-! ## 3. Graphs with wraps -/

/-- Where a level stays on it, so does each of its nodes. -/
theorem Linked.escapes_of_mem_chain {arena : Arena} : ∀ {t : Track NodeId} {leaves into : Exit},
    Linked Eq arena leaves into t → leaves.escapes = false →
    ∀ id ∈ t.chain, ∀ node, arena id = some node → node.escapes = false
  | .stop, _, _, _, _, id, hid, _, _ => absurd hid List.not_mem_nil
  | .symbol _ _, _, _, ⟨_, node, hn, _, _, hr⟩, hl, id, hid, x, hx
  | .epsilon _ _, _, _, ⟨_, node, hn, _, hr⟩, hl, id, hid, x, hx
  | .wrap _ _, _, _, ⟨_, node, hn, _, hr⟩, hl, id, hid, x, hx
  | .optional _ _ _, _, _, ⟨_, node, hn, _, _, hr⟩, hl, id, hid, x, hx
  | .iteration _ _ _, _, _, ⟨_, node, hn, _, _, hr⟩, hl, id, hid, x, hx
  | .rerun _ _ _ _, _, _, ⟨_, node, hn, _, _, _, hr⟩, hl, id, hid, x, hx
  | .choice _ _, _, _, ⟨_, node, hn, _, _, hr⟩, hl, id, hid, x, hx => by
    rcases List.mem_cons.mp hid with rfl | hid
    · rw [← Option.some.inj (hn.symm.trans hx)]
      exact hr.stays hl
    · exact hr.escapes_of_mem_chain hl id hid x hx

namespace Graph.Bare

variable {g : Graph} {t : Track NodeId}

/-- A node of the top level leads on along it. -/
theorem escapes_eq_false (h : g.Bare t) {id : NodeId} (hid : id ∈ t.chain) {node : Node}
    (hn : g.arena id = some node) : node.escapes = false :=
  h.linked.escapes_of_mem_chain rfl id hid node hn

/-- A node that something follows is not the last of the level. -/
theorem exists_follower (h : g.Bare t) {id : NodeId} (hid : g.Followed t id) :
    ∃ before next after, t.chain = before ++ id :: next :: after := by
  obtain ⟨hchain, node, hn, hnext⟩ := hid
  obtain ⟨before, behind, hsplit⟩ := List.append_of_mem hchain
  cases behind with
  | cons next after => exact ⟨before, next, after, hsplit⟩
  | nil =>
    rcases h.linked.last with ⟨rfl, -⟩ | ⟨last, lastNode, hlast, hn', hexit⟩
    · exact absurd hchain List.not_mem_nil
    · rw [hsplit, List.getLast?_concat] at hlast
      obtain rfl := Option.some.inj hlast
      obtain rfl := Option.some.inj (hn.symm.trans hn')
      have hend : node.next = none := congrArg Exit.next hexit.symm
      rw [hend] at hnext
      cases hnext

end Graph.Bare

namespace Wrapped

variable {g₀ g : Graph} {t₀ : Track NodeId} {w : NodeId → Option NodeId}

/-- What a node that was compiled has become. -/
theorem spotAt_eq (h : Wrapped g₀ t₀ g w) {id : NodeId} {node : Node}
    (hn : g₀.arena id = some node) : g.spotAt id = ⟨id, node.before (w id)⟩ := by
  show Spot.mk (g.spotAt id).id (g.spotAt id).node = _
  rw [Graph.spotAt_id, Graph.spotAt_node (h.arena_eq hn)]

/-- **The text of a graph with wraps** is that of the compiled graph. -/
theorem text_eq (hbare : g₀.Bare t₀) (h : Wrapped g₀ t₀ g w) (symbols : SymbolTable) :
    g.text symbols = g₀.text symbols := by
  have hsame : t₀.map (fun id => (g.spotAt id).node.text symbols)
      = t₀.map fun id => (g₀.spotAt id).node.text symbols := by
    refine Track.map_congr t₀ fun id hid => ?_
    obtain ⟨node, hn⟩ := hbare.node_of_mem hid
    rw [h.spotAt_eq hn, Graph.spotAt_node hn, Node.text, Node.text, Node.name, Node.name,
      Node.kind_before, Node.symbol_before]
  have htexts := congrArg (Track.texts id) hsame
  rw [Track.texts_map, Track.texts_map] at htexts
  rw [Graph.text, Graph.text, (h.hasTree hbare).track_eq, hbare.similar.track_eq, Track.text,
    Track.text, Track.texts_map, Track.texts_map, Track.texts_withWraps]
  exact congrArg _ htexts

/-- **A compiled node** is as it was, or a wrap has come between it and what follows it. -/
theorem node_cases (hbare : g₀.Bare t₀) (h : Wrapped g₀ t₀ g w) {id : NodeId} {node : Node}
    (hn : g₀.arena id = some node) : g.arena id = some node ∨
      ∃ next v wrap, id ∈ t₀.chain ∧ node.next = some next ∧
        g.arena id = some { node with next := some v } ∧
        g.arena v = some wrap ∧ wrap.kind = .wrap ∧ wrap.next = some next := by
  have hnode := h.arena_eq hn
  cases hw : w id with
  | none =>
    rw [hw] at hnode
    exact .inl hnode
  | some v =>
    rw [hw] at hnode
    obtain ⟨hchain, node', hn', hnext⟩ := h.owner id v hw
    obtain rfl := Option.some.inj (hn.symm.trans hn')
    obtain ⟨next, hnext⟩ := Option.isSome_iff_exists.mp hnext
    obtain ⟨wrap, hwrap, hk, hexit⟩ := h.wrap id v node hw hn
    have hstays := hbare.escapes_eq_false hchain hn
    have hwrapNext : wrap.next = some next := (congrArg Exit.next hexit).trans hnext
    refine .inr ⟨next, v, wrap, hchain, hnext, ?_, hwrap, hk, hwrapNext⟩
    rw [hnode, Node.before, Node.link, ← hstays]

/-- **What was not compiled** is a wrap, which stays on the level. -/
theorem kind_of_size_le (h : Wrapped g₀ t₀ g w) {v : Nat} {node : Node}
    (hv : g₀.nodes.size ≤ v) (hn : g.arena v = some node) : ∃ id, w id = some v ∧
      node.kind = .wrap ∧ node.escapes = false := by
  obtain ⟨id, hw⟩ := h.owned v hv (Array.getElem?_eq_some_iff.mp hn).1
  obtain ⟨-, owner, howner, -⟩ := h.owner id v hw
  obtain ⟨wrap, hwrap, hk, hexit⟩ := h.wrap id v owner hw howner
  obtain rfl := Option.some.inj (hwrap.symm.trans hn)
  exact ⟨id, hw, hk, congrArg Exit.escapes hexit⟩

/-- A compiled node has not become a wrap. -/
theorem kind_spotAt (hbare : g₀.Bare t₀) (h : Wrapped g₀ t₀ g w) {id : NodeId}
    (hid : id ∈ t₀.toList) : (g.spotAt id).node.kind ≠ .wrap := by
  obtain ⟨node, hn⟩ := hbare.node_of_mem hid
  rw [h.spotAt_eq hn, Node.kind_before]
  exact hbare.kind_ne_wrap hn

/-- **A wrap stands between two compiled nodes** of the top level. -/
theorem infix_level (hbare : g₀.Bare t₀) (h : Wrapped g₀ t₀ g w) {id v : NodeId}
    (hw : w id = some v) : ∃ next, next ∈ t₀.chain ∧
      [g.spotAt id, g.spotAt v, g.spotAt next] <:+: g.level (some g.entry) := by
  obtain ⟨before, next, after, hsplit⟩ := hbare.exists_follower (h.owner id v hw)
  refine ⟨next, by simp [hsplit], ?_⟩
  rw [(h.hasTree hbare).level_entry, Track.chain_withWraps, hsplit]
  have hinfix : [id, v, next] <:+: (before ++ id :: next :: after).flatMap
      fun b => b :: (w b).toList :=
    ⟨before.flatMap fun b => b :: (w b).toList,
      (w next).toList ++ after.flatMap fun b => b :: (w b).toList, by simp [hw]⟩
  exact hinfix.map g.spotAt

end Wrapped

/-! ## 4. Graphs after layouts -/

/-- **What layouts leave of a graph.**  The graph is closed and says the same; its nodes are as they
were, but where one leads on along the top level there may be a wrap in between; everything else in
it is such a wrap, between two nodes of the top level that are none.

Serial numbers of wraps go on from those of the graph, so all of them differ. -/
structure Graph.Intact (g g' : Graph) : Prop where
  closed : g'.checkClosed = .ok ()
  text : ∀ symbols, g'.text symbols = g.text symbols
  entry : g'.entry = g.entry
  node : ∀ (id : Nat) (node : Node), g.nodes[id]? = some node → g'.nodes[id]? = some node ∨
    ∃ next v wrap, ⟨id, node⟩ ∈ g.level (some g.entry) ∧ node.next = some next ∧
      g'.nodes[id]? = some { node with next := some v } ∧
      g'.nodes[v]? = some wrap ∧ wrap.kind = .wrap ∧ wrap.next = some next
  added : ∀ (id : Nat) (node : Node), g.nodes.size ≤ id → g'.nodes[id]? = some node →
    node.kind = .wrap
  wrap : ∀ (id : Nat) (wrap : Node), g'.nodes[id]? = some wrap → wrap.kind = .wrap →
    wrap.escapes = false ∧ ∃ before after, before.node.kind ≠ .wrap ∧ after.node.kind ≠ .wrap ∧
      [before, ⟨id, wrap⟩, after] <:+: g'.level (some g'.entry)
  inner : ∀ level ∈ g'.track.inner, ∀ spot ∈ level.toList, spot.node.kind ≠ .wrap
  serials : g'.serials.Nodup

/-- **Layouts do not damage a graph,** whatever their settings, however they measure labels and
whatever comes of them.

It is one theorem about any number of layouts and not one about a single layout, since the second
layout starts from a graph in which there are wraps already. -/
theorem afterLayouts_intact {registry : Build.Registry} {collapsing : Bool} {p : Production}
    {g : Graph} (h : (Build.compile registry collapsing p).1 = .ok g)
    (rulers : List (Ruler Float32)) : g.Intact (g.afterLayouts rulers) := by
  obtain ⟨t, hbare⟩ := Build.bare_of_compile h
  obtain ⟨w, hw⟩ := (Wrapped.refl g t).afterLayouts hbare rulers
  have htree := hw.hasTree hbare
  constructor
  case closed => exact htree.checkClosed_eq
  case text => exact hw.text_eq hbare
  case entry => exact hw.entry
  case node =>
    intro id node hn
    rcases hw.node_cases hbare hn with hsame | ⟨next, v, wrap, hid, hrest⟩
    · exact .inl hsame
    · refine .inr ⟨next, v, wrap, ?_, hrest⟩
      rw [hbare.similar.level_entry]
      refine List.mem_map.mpr ⟨id, hid, ?_⟩
      exact (Wrapped.refl g t).spotAt_eq hn
  case added =>
    intro id node hid hn
    obtain ⟨-, -, hk, -⟩ := hw.kind_of_size_le hid hn
    exact hk
  case wrap =>
    intro v wrap hv hk
    have hsize : g.nodes.size ≤ v := by
      by_contra hlt
      obtain ⟨node, hn⟩ := hbare.node_of_mem ((hbare.mem_iff v).mpr (Nat.not_le.mp hlt))
      obtain rfl := Option.some.inj ((hw.arena_eq hn).symm.trans hv)
      exact hbare.kind_ne_wrap hn (by rwa [Node.kind_before] at hk)
    obtain ⟨id, hid, -, hstays⟩ := hw.kind_of_size_le hsize hv
    obtain ⟨next, hnext, hinfix⟩ := hw.infix_level hbare hid
    have hspot : Graph.spotAt _ v = ⟨v, wrap⟩ := congrArg (Spot.mk v) (Graph.spotAt_node hv)
    rw [hspot] at hinfix
    refine ⟨hstays, _, _, ?_, ?_, hinfix⟩
    · exact hw.kind_spotAt hbare (Track.mem_toList_of_mem_chain t (hw.owner id v hid).1)
    · exact hw.kind_spotAt hbare (Track.mem_toList_of_mem_chain t hnext)
  case inner =>
    rw [htree.track_eq, Track.inner_map, Track.inner_withWraps, List.forall_mem_map]
    intro level hlevel
    rw [Track.toList_map, List.forall_mem_map]
    intro id hid
    exact hw.kind_spotAt hbare (Track.mem_toList_of_mem_inner hid t hlevel)
  case serials =>
    refine Graph.serials_afterLayouts _ ?_
    rw [Build.serials_of_compile h]
    exact List.nodup_range'

/-- A narrow page puts a wrap with a new number behind the first word; then a wide one, which has no
use for it, and the narrow one again. -/
theorem afterLayouts_intact_twoWords : (Build.compile {} true twoWords).1 = .ok twoWordsGraph ∧
    (twoWordsGraph.afterLayouts [twoWordsRuler (some 40.0)]).serials = [0, 1, 2] ∧
    twoWordsGraph.Intact (twoWordsGraph.afterLayouts
      [twoWordsRuler (some 40.0), twoWordsRuler none, twoWordsRuler (some 40.0)]) := by
  have hg : (Build.compile {} true twoWords).1 = .ok twoWordsGraph := by cbv
  have hserials : (twoWordsGraph.afterLayouts [twoWordsRuler (some 40.0)]).serials = [0, 1, 2] := by
    rw [Graph.afterLayouts, List.foldl_cons, List.foldl_nil, Graph.layout_snd, Graph.breakRows_eq,
      rowBreaks_twoWords]
    rfl
  exact ⟨hg, hserials, afterLayouts_intact hg _⟩

end Railroad
