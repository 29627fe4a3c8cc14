/-
# Layers

Marks are made in the order in which a diagram is walked through, and shown layer by layer.
`Layered` collects things with their layers.  `Layered.groups` are the layers in use, the lowest
first, each with what was put on it, in the order in which it was: everything is sorted by its
layer, and then gathered into groups from the lowest layer up.

The sorting keeps things of one layer in their order, and the gathering looks only at neighbors.  So
a layer has one group because its things lie next to each other once they are sorted; that the
groups are complete, in order and without repetition is proved in `Railroad.Proofs.Drawing.Layers`.

What is collected does not matter here.  A drawing collects SVG elements
(`Railroad.Drawing.Svg`).
-/
import Railroad.Drawing.Primitive

namespace Railroad

/-- **Things on layers,** in the order in which they were put there, whichever layer it was.  What
is shown first is decided when it is shown (`Layered.groups`). -/
structure Layered (β : Type) where
  items : List (Layer × β) := []

namespace Layered

variable {β : Type}

/-- Puts one more thing on a layer, `add_to_layer`. -/
def add (l : Layered β) (layer : Layer) (item : β) : Layered β := ⟨l.items ++ [(layer, item)]⟩

/-- Puts everything of another collection on top, `merge`: on each layer its things come last. -/
def merge (l m : Layered β) : Layered β := ⟨l.items ++ m.items⟩

/-- Nothing was put anywhere. -/
def isEmpty (l : Layered β) : Bool := l.items.isEmpty

/-- What was put on a layer. -/
def on (l : Layered β) (layer : Layer) : List β :=
  l.items.filterMap fun (other, item) => if other = layer then some item else none

/-- Everything with the lower layers first.  Things on one layer stay in their order. -/
def sorted (l : Layered β) : List (Layer × β) :=
  l.items.mergeSort fun a b => a.1.rank ≤ b.1.rank

/-- **Gathers sorted things.**  `group` is what was met on `layer` so far; it is complete when another
layer comes. -/
def gather (layer : Layer) (group : List β) : List (Layer × β) → List (Layer × List β)
  | [] => [(layer, group)]
  | (other, item) :: rest =>
    if other = layer then gather layer (group ++ [item]) rest
    else (layer, group) :: gather other [item] rest

/-- **The layers in use with what is on them.**  A layer that nothing was put on has no group.  On
one layer the order is the one in which things were put there, since sorting keeps the order of what
is on the same layer. -/
def groups (l : Layered β) : List (Layer × List β) :=
  match l.sorted with
  | [] => []
  | first :: rest => gather first.1 [] (first :: rest)

/-- What is put on a layer comes after what is there. -/
theorem on_add (l : Layered β) (layer other : Layer) (item : β) :
    (l.add layer item).on other = l.on other ++ if layer = other then [item] else [] := by
  unfold on add
  by_cases h : layer = other <;> simp [List.filterMap_append, h]

/-- Merging puts the other collection after what is there, on every layer. -/
theorem on_merge (l m : Layered β) (layer : Layer) :
    (l.merge m).on layer = l.on layer ++ m.on layer := List.filterMap_append ..

end Layered

end Railroad
