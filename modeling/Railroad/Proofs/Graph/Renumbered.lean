/-
# Symbols under other numbers

A node tells its symbol by its number in a table, and has a serial number besides.  Neither number
means anything by itself: `renumber` puts other numbers for the symbols and drops the serial
numbers, and a graph is read in the same way as before (`Graph.track_renumber`).

So two graphs that come out the same under it are alike (`Graph.Alike`).  They are read alike, and
they stay alike when their rows are broken at the same nodes (`Graph.Alike.breakAfterAll`).

Alike is not the same as equal under a renaming in one direction: both graphs are renumbered, each
by its own map, and compared then.  With both symbol tables embedded in a third one the maps can be
chosen to agree on what matters, and none has to be inverted.
-/
import Railroad.Graph.Printer
import Railroad.Layout.Break
import Railroad.Proofs.Graph.Track

namespace Railroad

/-! ## 1. Numbers in another table -/

namespace SymbolTable

/-- **The number that a symbol has in another table,** or one that none of its symbols has. -/
def into (t other : SymbolTable) (id : SymbolId) : SymbolId :=
  ((t.entries[id]?).bind fun entry => other.lookup entry.1 entry.2).getD other.size

/-- The symbols of one table and then those of another. -/
def followedBy (t other : SymbolTable) : SymbolTable := ⟨t.entries ++ other.entries⟩

theorem exists_lookup {t : SymbolTable} {entry : SymbolKind × String} (h : entry ∈ t.entries) :
    ∃ id, t.lookup entry.1 entry.2 = some id := by
  rw [← Option.isSome_iff_exists, lookup, List.isSome_idxOf?]
  exact h

/-- **A symbol keeps its name** in a table that has it. -/
theorem name?_into {t other : SymbolTable} (h : t.entries ⊆ other.entries) (id : SymbolId) :
    other.name? (t.into other id) = t.name? id := by
  unfold into name?
  cases hentry : t.entries[id]? with
  | none => simp [size]
  | some entry =>
    obtain ⟨number, hnumber⟩ := exists_lookup (h (List.mem_of_getElem? hentry))
    rw [Option.bind_some, hnumber, Option.getD_some, entries_lookup hnumber]

end SymbolTable

/-! ## 2. Graphs under other numbers -/

variable (σ : SymbolId → SymbolId)

/-- **The node without its serial number,** and its symbol under another number. -/
def Node.renumber (node : Node) : Node := { node with serial := 0, symbol := node.symbol.map σ }

/-- The same node at its place. -/
def Spot.renumber (spot : Spot) : Spot := { spot with node := spot.node.renumber σ }

/-- The graph of such nodes. -/
def Graph.renumber (g : Graph) : Graph := { g with nodes := g.nodes.map (·.renumber σ) }

namespace Node

@[simp] theorem kind_renumber (node : Node) : (node.renumber σ).kind = node.kind := rfl
@[simp] theorem style_renumber (node : Node) : (node.renumber σ).style = node.style := rfl
@[simp] theorem next_renumber (node : Node) : (node.renumber σ).next = node.next := rfl
@[simp] theorem escapes_renumber (node : Node) : (node.renumber σ).escapes = node.escapes := rfl
@[simp] theorem down_renumber (node : Node) : (node.renumber σ).down = node.down := rfl
@[simp] theorem sub_renumber (node : Node) : (node.renumber σ).sub = node.sub := rfl
@[simp] theorem between_renumber (node : Node) : (node.renumber σ).between = node.between := rfl

end Node

@[simp] theorem Spot.node_renumber (spot : Spot) :
    (spot.renumber σ).node = spot.node.renumber σ := rfl

namespace Graph

@[simp] theorem nodes_size_renumber (g : Graph) : (g.renumber σ).nodes.size = g.nodes.size :=
  Array.size_map

theorem getElem?_renumber (g : Graph) (id : NodeId) :
    (g.renumber σ).nodes[id]? = (g.nodes[id]?).map (·.renumber σ) :=
  Array.getElem?_map

theorem bind_spot?_renumber (g : Graph) (id : Option NodeId) :
    id.bind (g.renumber σ).spot? = (id.bind g.spot?).map (·.renumber σ) := by
  cases id with
  | none => rfl
  | some id =>
    rw [Option.bind_some, Option.bind_some, spot?, spot?, getElem?_renumber, Option.map_map,
      Option.map_map]
    rfl

mutual

theorem readTrack_renumber (g : Graph) : ∀ (fuel : Nat) (id : Option NodeId),
    (g.renumber σ).readTrack fuel id = (g.readTrack fuel id).map (·.renumber σ)
  | 0, _ => by rw [readTrack, readTrack, Track.map]
  | fuel + 1, id => by
    rw [readTrack, readTrack, bind_spot?_renumber]
    cases id.bind g.spot? with
    | none => rfl
    | some spot =>
      have hbranches := readBranches_renumber g fuel spot
      simp only [Option.map_some, Spot.node_renumber, Node.kind_renumber, Node.escapes_renumber,
        Node.next_renumber, Node.sub_renumber, Node.between_renumber, readTrack_renumber g fuel]
      cases spot.node.kind <;>
        simp only [Track.map, apply_ite (Track.map (Spot.renumber σ ·)), hbranches]

theorem readBranches_renumber (g : Graph) : ∀ (fuel : Nat) (spot : Spot),
    (g.renumber σ).readBranches fuel (spot.renumber σ)
      = Track.mapBranches (·.renumber σ) (g.readBranches fuel spot)
  | 0, _ => by rw [readBranches, readBranches, Track.mapBranches, Track.map]
  | fuel + 1, spot => by
    simp only [readBranches, Spot.node_renumber, Node.sub_renumber, Node.down_renumber,
      bind_spot?_renumber, readTrack_renumber g fuel]
    cases spot.node.down.bind g.spot? with
    | none => rfl
    | some below => simp only [Option.map_some, Track.mapBranches, readBranches_renumber g fuel below]

end

/-- **A graph is read in the same way** whatever the numbers in it are. -/
theorem track_renumber (g : Graph) : (g.renumber σ).track = g.track.map (·.renumber σ) := by
  unfold track trackFrom
  rw [readTrack_renumber, nodes_size_renumber]
  rfl

end Graph

/-! ## 3. Texts -/

/-- The tables agree on the names: what `σ` says in one is what is said in the other. -/
def SymbolTable.Agrees (t other : SymbolTable) : Prop := ∀ id, other.name? (σ id) = t.name? id

section

variable {σ} {t other : SymbolTable} (h : t.Agrees σ other)

include h

theorem Node.name_renumber (node : Node) : (node.renumber σ).name other = node.name t := by
  unfold Node.name renumber
  cases node.symbol with
  | none => rfl
  | some id => exact congrArg (·.getD "") (h id)

theorem Node.text_renumber (node : Node) : (node.renumber σ).text other = node.text t := by
  unfold Node.text
  rw [name_renumber h, kind_renumber]

end

/-! ## 4. Graphs that are alike -/

/-- A change that does not touch the numbers can be made before or after. -/
theorem Node.map_renumber_modify {change : Node → Node}
    (h : ∀ node, (change node).renumber σ = change (node.renumber σ)) (nodes : Array Node) (id : Nat) :
    (nodes.modify id change).map (·.renumber σ) = (nodes.map (·.renumber σ)).modify id change := by
  apply Array.ext_getElem?
  intro place
  simp only [Array.getElem?_map, Array.getElem?_modify]
  split
  · simp only [Option.map_map, Function.comp_def, h]
  · rfl

theorem Graph.wrapBehind?_renumber (g : Graph) (id : NodeId) :
    (g.renumber σ).wrapBehind? id = g.wrapBehind? id := by
  unfold wrapBehind?
  rw [getElem?_renumber]
  cases g.nodes[id]? with
  | none => rfl
  | some node =>
    cases hnext : node.next with
    | none => simp [hnext]
    | some next =>
      cases hafter : g.nodes[next]? with
      | none => simp [hnext, hafter, getElem?_renumber]
      | some after =>
        simp only [bind, Option.bind, Option.map_some, Node.next_renumber, hnext, getElem?_renumber,
          hafter, Node.kind_renumber]
        rfl

/-- A new wrap gets a number of its own, which is the only trace of the numbers in the graph. -/
theorem Graph.insertWrap_renumber (g : Graph) (id : NodeId) :
    (g.insertWrap id).renumber σ = ((g.renumber σ).insertWrap id).renumber fun symbol => symbol := by
  have hlink (σ : SymbolId → SymbolId) (next : Option NodeId) (nodes : Array Node) :
      (nodes.modify id (·.link next false)).map (·.renumber σ)
        = (nodes.map (·.renumber σ)).modify id (·.link next false) := by
    refine Node.map_renumber_modify σ (fun node => ?_) nodes id
    rfl
  have hagain (node : Node) : (node.renumber σ).renumber (fun symbol => symbol) = node.renumber σ := by
    unfold Node.renumber
    simp only [Option.map_map, Function.comp_def]
  have hnext : ((g.renumber σ).nodes[id]?).bind (·.next) = (g.nodes[id]?).bind (·.next) := by
    rw [getElem?_renumber]
    cases g.nodes[id]? <;> rfl
  unfold insertWrap modify
  rw [hnext, nodes_size_renumber]
  unfold renumber
  simp only [hlink, Array.map_push, Array.map_map, Function.comp_def, hagain]
  rfl

variable {σ} {σ' : SymbolId → SymbolId} {g g' : Graph}

/-- **Two graphs are the same but for the numbers in them.**  With their symbols numbered alike and
without their serial numbers they are equal. -/
def Graph.Alike (σ σ' : SymbolId → SymbolId) (g g' : Graph) : Prop := g.renumber σ = g'.renumber σ'

namespace Graph.Alike

theorem track_eq (h : Alike σ σ' g g') :
    g.track.map (·.renumber σ) = g'.track.map (·.renumber σ') := by
  rw [← track_renumber, ← track_renumber, h]

theorem nodes_size (h : Alike σ σ' g g') : g.nodes.size = g'.nodes.size := by
  rw [← nodes_size_renumber σ g, h, nodes_size_renumber]

theorem wrapBehind?_eq (h : Alike σ σ' g g') (id : NodeId) :
    g.wrapBehind? id = g'.wrapBehind? id := by
  rw [← wrapBehind?_renumber σ, h, wrapBehind?_renumber]

theorem insertWrap (h : Alike σ σ' g g') (id : NodeId) :
    Alike σ σ' (g.insertWrap id) (g'.insertWrap id) :=
  calc (g.insertWrap id).renumber σ
    _ = ((g.renumber σ).insertWrap id).renumber fun symbol => symbol := insertWrap_renumber σ g id
    _ = ((g'.renumber σ').insertWrap id).renumber fun symbol => symbol := by rw [h]
    _ = (g'.insertWrap id).renumber σ' := (insertWrap_renumber σ' g' id).symm

theorem breakAfter (h : Alike σ σ' g g') (id : NodeId) :
    Alike σ σ' (g.breakAfter id).1 (g'.breakAfter id).1 ∧
      (g.breakAfter id).2 = (g'.breakAfter id).2 := by
  unfold Graph.breakAfter
  rw [h.wrapBehind?_eq]
  cases g'.wrapBehind? id with
  | some wrap => exact ⟨h, rfl⟩
  | none => exact ⟨h.insertWrap id, h.nodes_size⟩

/-- **Alike graphs stay alike** when rows are ended at the same nodes, and the same wraps do that. -/
theorem breakAfterAll : ∀ (ids : List NodeId) {g g' : Graph}, Alike σ σ' g g' →
    Alike σ σ' (g.breakAfterAll ids).1 (g'.breakAfterAll ids).1 ∧
      (g.breakAfterAll ids).2 = (g'.breakAfterAll ids).2
  | [], _, _, h => ⟨h, rfl⟩
  | id :: ids, g, g', h => by
    obtain ⟨hfirst, hwrap⟩ := h.breakAfter id
    obtain ⟨hrest, hwraps⟩ := breakAfterAll ids hfirst
    refine ⟨hrest, ?_⟩
    show (g.breakAfter id).2 :: ((g.breakAfter id).1.breakAfterAll ids).2 = _
    rw [hwrap, hwraps]
    rfl

end Graph.Alike

end Railroad
