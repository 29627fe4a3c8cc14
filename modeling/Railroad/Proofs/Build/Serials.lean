/-
# Serial numbers

A registry hands out serial numbers one after the other, and a node gets the next one when it is
made.  While one graph is built nothing else takes any, so its nodes are numbered by their places,
from the number on that was the next one before (`serial_of_compile`).

That is an invariant of the steps of building: a step makes a node with the next number
(`Numbered.push`) or changes links (`Numbered.modify`).

Numbers are then different in one graph, and different from those of all graphs that were built
before with the same registry.  Wraps are numbered later, from the graph and not from the registry
(`Railroad.Proofs.Layout.Integrity`).
-/
import Railroad.Proofs.Build.Parallel

namespace Railroad.Build

/-! ## 1. Numbered drafts -/

/-- **The nodes of a draft are numbered by their places,** and so will be the next one. -/
structure Draft.Numbered (first : Nat) (d : Draft) : Prop where
  next : d.nextSerial = first + d.nodes.size
  node : ∀ (id : Nat) (node : Node), d.arena id = some node → node.serial = first + id

namespace Draft.Numbered

variable {first : Nat} {d d' : Draft}

theorem push (h : d.Numbered first) (node : Nat → Node) (hnode : ∀ n, (node n).serial = n) :
    (d.push node).1.Numbered first where
  next := by
    show d.nextSerial + 1 = first + (d.nodes.push (node d.nextSerial)).size
    rw [h.next, Array.size_push, Nat.add_assoc]
  node id x hx := by
    rw [arena_push] at hx
    split at hx
    · rename_i hid
      cases hx
      rw [hnode, h.next, hid]
    · exact h.node id x hx

/-- A change of links leaves the numbers. -/
theorem modify (h : d.Numbered first) (place : Nat) {f : Node → Node}
    (hf : ∀ x, (f x).serial = x.serial) :
    Draft.Numbered first { d with nodes := d.nodes.modify place f } where
  next := by rw [h.next, Array.size_modify]
  node id x hx := by
    rw [arena, Array.getElem?_modify] at hx
    split at hx
    · obtain ⟨before, hbefore, rfl⟩ := Option.map_eq_some_iff.mp hx
      rw [hf]
      exact h.node id before hbefore
    · exact h.node id x hx

theorem symbol (h : d.Numbered first) (kind : SymbolKind) (leaf : Leaf) :
    (d.symbol kind leaf).1.Numbered first := by
  have huse : Draft.Numbered first { (d.toRegistry.use kind leaf.name).1 with nodes := d.nodes } :=
    ⟨(d.toRegistry.nextSerial_use kind leaf.name).trans h.next, h.node⟩
  exact huse.push (fun serial => { Made.symbolNode d kind leaf with serial }) fun _ => rfl

/-- **A step of building keeps a draft numbered.** -/
theorem step (hstep : Draft.Step d d') (h : d.Numbered first) : d'.Numbered first := by
  cases hstep with
  | symbol kind leaf => exact h.symbol kind leaf
  | construct node hnode => exact h.push node fun n => (hnode n).1
  | relink place change hchange => exact h.modify place fun x => (hchange x).1

end Draft.Numbered

/-! ## 2. Numbered graphs -/

/-- **A graph is numbered from the next serial number on,** and the numbers of its nodes are those that
were given out for it. -/
theorem numbered_of_compile {r : Registry} {collapsing : Bool} {p : Production} {g : Graph}
    (h : (compile r collapsing p).1 = .ok g) :
    Draft.Numbered r.nextSerial { (compile r collapsing p).2 with nodes := g.nodes } := by
  obtain ⟨d, hadvances, hregistry, hnodes⟩ := compile_advances r collapsing p
  have hstart : Draft.Numbered r.nextSerial { r with } := ⟨rfl, by intro id node h; cases h⟩
  rw [← hregistry, hnodes g h]
  exact hadvances.keeps (fun _ _ => Draft.Numbered.step) hstart

/-- **The serial numbers of a graph** are those that were not given out before, in the order of its
nodes. -/
theorem serial_of_compile {r : Registry} {collapsing : Bool} {p : Production} {g : Graph}
    (h : (compile r collapsing p).1 = .ok g) {id : Nat} {node : Node}
    (hn : g.nodes[id]? = some node) : node.serial = r.nextSerial + id :=
  (numbered_of_compile h).node id node hn

end Railroad.Build
