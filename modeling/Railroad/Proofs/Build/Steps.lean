/-
# Steps of building

Whatever is built, and whether that succeeds or not, a draft changes in three ways only
(`Draft.Step`): it gets the node of a symbol, and with it a number for the symbol; it gets the node of
a construct; or the links of a node are changed.  A draft *advances* by any number of these.

So what building keeps is proved once for each of the three, and holds of every attempt at a
production then.  Here that is what happens to the registry: nothing is ever taken off it
(`Draft.Advances.extends`).

A step is not a construct: an option is a step that makes its node and several that change links.
What is lost in this way is the shape of the graph, so what is said of shapes goes by constructs
instead (`Railroad.Proofs.Build.Shape`).
-/
import Mathlib.Logic.Relation
import Railroad.Proofs.Build.Shape

namespace Railroad.Build

/-! ## 1. Steps -/

/-- **One change of a draft.**  There are no other changes, so what each of these keeps is kept by
building. -/
inductive Draft.Step : Draft → Draft → Prop where
  | symbol (d : Draft) (kind : SymbolKind) (leaf : Leaf) : Step d (d.symbol kind leaf).1
  /-- A node with the next serial number that is no symbol and has no style of its own. -/
  | construct (d : Draft) (node : Nat → Node)
    (h : ∀ n, (node n).serial = n ∧ (node n).kind.isSymbol = false ∧ (node n).symbol = none ∧
      (node n).style = {}) :
    Step d (d.push node).1
  /-- Another continuation, or another branch below. -/
  | relink (d : Draft) (place : Nat) (change : Node → Node)
    (h : ∀ x, (change x).serial = x.serial ∧ (change x).kind = x.kind ∧
      (change x).symbol = x.symbol ∧ (change x).style = x.style) :
    Step d { d with nodes := d.nodes.modify place change }

/-- **A draft advances to another one** by steps. -/
def Draft.Advances : Draft → Draft → Prop := Relation.ReflTransGen Draft.Step

namespace Draft.Advances

variable {d d' d₁ d₂ : Draft}

theorem refl (d : Draft) : d.Advances d := Relation.ReflTransGen.refl

theorem trans (h : d.Advances d₁) (h' : d₁.Advances d₂) : d.Advances d₂ :=
  Relation.ReflTransGen.trans h h'

theorem step (h : Draft.Step d d₁) : d.Advances d₁ := Relation.ReflTransGen.single h

/-- **What every step keeps is kept.** -/
theorem keeps {P : Draft → Prop} (hstep : ∀ d d', Draft.Step d d' → P d → P d')
    (h : d.Advances d') (hd : P d) : P d' := by
  induction h with
  | refl => exact hd
  | tail _ hlast ih => exact hstep _ _ hlast ih

theorem linkAll (next : Option NodeId) (escapes : Bool) : ∀ (places : List NodeId) (d : Draft),
    d.Advances (d.linkAll places next escapes)
  | [], d => .refl d
  | place :: places, d =>
    (step (.relink d place (·.link next escapes) fun _ => ⟨rfl, rfl, rfl, rfl⟩)).trans
      (linkAll next escapes places (d.link place next escapes))

end Draft.Advances

/-! ## 2. The registry -/

/-- **Nothing was taken off a registry:** symbols and terminals were added at the end, and serial
numbers were given out.  A number that was given out before therefore goes on meaning what it meant.
-/
structure Registry.Extends (r r' : Registry) : Prop where
  symbols : r.symbols.entries <+: r'.symbols.entries
  terminals : r.terminals <+: r'.terminals
  serials : r.nextSerial ≤ r'.nextSerial

namespace Registry

theorem Extends.refl (r : Registry) : r.Extends r :=
  ⟨List.prefix_rfl, List.prefix_rfl, Nat.le_refl _⟩

theorem Extends.trans {r₁ r₂ r₃ : Registry} (h : r₁.Extends r₂) (h' : r₂.Extends r₃) :
    r₁.Extends r₃ :=
  ⟨h.symbols.trans h'.symbols, h.terminals.trans h'.terminals, Nat.le_trans h.serials h'.serials⟩

theorem nextSerial_use (r : Registry) (kind : SymbolKind) (name : String) :
    (r.use kind name).1.nextSerial = r.nextSerial := by
  unfold use intern
  cases kind with
  | nonterminal => rfl
  | terminal =>
    dsimp only
    split <;> rfl

theorem extends_use (r : Registry) (kind : SymbolKind) (name : String) :
    r.Extends (r.use kind name).1 where
  symbols := by
    rw [symbols_use]
    exact r.symbols.prefix_intern kind name
  terminals := by
    unfold use intern
    cases kind with
    | nonterminal => exact List.prefix_rfl
    | terminal =>
      dsimp only
      split
      · exact List.prefix_rfl
      · exact List.prefix_append _ _
  serials := Nat.le_of_eq (r.nextSerial_use kind name).symm

end Registry

theorem Draft.toRegistry_linkAll (next : Option NodeId) (escapes : Bool) :
    ∀ (places : List NodeId) (d : Draft), (d.linkAll places next escapes).toRegistry = d.toRegistry
  | [], _ => rfl
  | place :: places, d => toRegistry_linkAll next escapes places (d.link place next escapes)

/-- **Building takes nothing off the registry.** -/
theorem Draft.Advances.extends {d d' : Draft} (h : d.Advances d') :
    d.toRegistry.Extends d'.toRegistry := by
  refine h.keeps (P := fun x => d.toRegistry.Extends x.toRegistry) ?_ (.refl _)
  intro x y hstep hx
  refine hx.trans ?_
  cases hstep with
  | symbol kind leaf =>
    have huse := x.toRegistry.extends_use kind leaf.name
    exact ⟨huse.symbols, huse.terminals, Nat.le_succ_of_le huse.serials⟩
  | construct node h => exact ⟨List.prefix_rfl, List.prefix_rfl, Nat.le_succ _⟩
  | relink place change h => exact .refl _

end Railroad.Build
