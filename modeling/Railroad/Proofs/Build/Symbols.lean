/-
# Symbols of a registry

A table has each symbol once, so a symbol and its number stand for each other
(`SymbolTable.lookup_eq_some_iff`).  The terminals of a registry are those of its table in the order of
their numbers (`Registry.Sound`), and a node has a symbol of its own kind if it is the node of a
symbol, and else none (`Draft.Labelled`).

Both are kept by every step of building, so they hold of the registry that an attempt leaves behind,
and of the graph that it makes.

The three facts about `intern` that carry this are that it finds what is there, adds at the end what
is not, and so takes nothing away (`SymbolTable.intern_cases`).  A number that was given out means
the same symbol in every later table; that is why a node that was labelled once stays labelled
(`Node.Labelled.mono`).
-/
import Mathlib.Data.List.Nodup
import Railroad.Proofs.Build.Parallel

namespace Railroad

/-! ## 1. Tables -/

namespace SymbolTable

variable {t t' : SymbolTable} {kind : SymbolKind} {name : String} {id : SymbolId}

/-- The numbers of the terminals of a table, in order. -/
def terminals (t : SymbolTable) : List SymbolId :=
  (List.range t.size).filter fun id => t.kind? id = some .terminal

theorem lookup_eq_none_iff : t.lookup kind name = none ↔ (kind, name) ∉ t.entries := by
  constructor
  · intro h hmem
    obtain ⟨id, hid⟩ := exists_lookup hmem
    rw [h] at hid
    cases hid
  · intro h
    cases hid : t.lookup kind name with
    | none => rfl
    | some id => exact absurd (List.mem_of_getElem? (entries_lookup hid)) h

theorem entries_eq_some_iff :
    t.entries[id]? = some (kind, name) ↔ t.kind? id = some kind ∧ t.name? id = some name := by
  unfold kind? name?
  cases t.entries[id]? with
  | none => simp
  | some entry => simp [Prod.ext_iff]

/-- **A symbol and its number stand for each other** in a table that has each symbol once. -/
theorem lookup_eq_some_iff (h : t.entries.Nodup) :
    t.lookup kind name = some id ↔ t.kind? id = some kind ∧ t.name? id = some name := by
  rw [← entries_eq_some_iff]
  refine ⟨entries_lookup, fun hentry => ?_⟩
  obtain ⟨first, hfirst⟩ := exists_lookup (List.mem_of_getElem? hentry)
  have hlt := (List.getElem?_eq_some_iff.mp hentry).1
  have hsame : id = first :=
    (List.getElem?_inj hlt h).mp (hentry.trans (entries_lookup hfirst).symm)
  rw [hsame]
  exact hfirst

/-- **What asking for the number of a symbol can do.** -/
theorem intern_cases (t : SymbolTable) (kind : SymbolKind) (name : String) :
    (∃ id, t.lookup kind name = some id ∧ t.intern kind name = (t, id)) ∨
      (t.lookup kind name = none ∧
        t.intern kind name = (⟨t.entries ++ [(kind, name)]⟩, t.size)) := by
  unfold intern
  cases t.lookup kind name with
  | some id => exact .inl ⟨id, rfl, rfl⟩
  | none => exact .inr ⟨rfl, rfl⟩

theorem nodup_intern (h : t.entries.Nodup) (kind : SymbolKind) (name : String) :
    (t.intern kind name).1.entries.Nodup := by
  obtain ⟨id, -, heq⟩ | ⟨hnew, heq⟩ := t.intern_cases kind name <;> rw [heq]
  · exact h
  · exact List.concat_eq_append ▸ List.Nodup.concat (lookup_eq_none_iff.mp hnew) h

theorem kind?_of_prefix (h : t.entries <+: t'.entries) (hkind : t.kind? id = some kind) :
    t'.kind? id = some kind := by
  unfold kind? at hkind ⊢
  obtain ⟨entry, hentry, rfl⟩ := Option.map_eq_some_iff.mp hkind
  rw [SymbolTable.entries_of_prefix h hentry]
  rfl

theorem mem_terminals_iff : id ∈ t.terminals ↔ t.kind? id = some .terminal := by
  rw [terminals, List.mem_filter, List.mem_range, decide_eq_true_iff, and_iff_right_iff_imp]
  intro h
  obtain ⟨entry, hentry, -⟩ := Option.map_eq_some_iff.mp h
  exact (List.getElem?_eq_some_iff.mp hentry).1

/-- Another symbol adds its number to the terminals, if it is one. -/
theorem terminals_snoc (t : SymbolTable) (kind : SymbolKind) (name : String) :
    terminals ⟨t.entries ++ [(kind, name)]⟩
      = t.terminals ++ if kind = .terminal then [t.size] else [] := by
  have hold : ∀ id ∈ List.range t.size,
      decide (kind? ⟨t.entries ++ [(kind, name)]⟩ id = some .terminal)
        = decide (t.kind? id = some .terminal) := by
    intro id hid
    rw [kind?, kind?, List.getElem?_append_left (List.mem_range.mp hid)]
  have hnew : kind? ⟨t.entries ++ [(kind, name)]⟩ t.size = some kind := by
    rw [kind?, size, List.getElem?_concat_length]
    rfl
  have hsize : size ⟨t.entries ++ [(kind, name)]⟩ = t.size + 1 := by simp [size]
  rw [terminals, hsize, List.range_succ, List.filter_append, List.filter_congr hold, List.filter_cons,
    hnew]
  cases kind <;> rfl

end SymbolTable

namespace Build

/-! ## 2. Registries -/

/-- **A registry has each symbol once, and notes down its terminals** in the order of their numbers.
The table does not enforce either; both follow from how `intern` adds to it. -/
structure Registry.Sound (r : Registry) : Prop where
  nodup : r.symbols.entries.Nodup
  terminals : r.terminals = r.symbols.terminals

namespace Registry.Sound

variable {r : Registry}

theorem use (h : r.Sound) (kind : SymbolKind) (name : String) : (r.use kind name).1.Sound := by
  refine ⟨by rw [symbols_use]; exact SymbolTable.nodup_intern h.nodup kind name, ?_⟩
  obtain ⟨id, hold, heq⟩ | ⟨-, heq⟩ := r.symbols.intern_cases kind name
  · cases kind with
    | nonterminal => simp only [Registry.use, intern, heq, h.terminals]
    | terminal =>
      have hid : id ∈ r.symbols.terminals :=
        SymbolTable.mem_terminals_iff.mpr ((SymbolTable.lookup_eq_some_iff h.nodup).mp hold).1
      simp only [Registry.use, intern, heq, h.terminals, List.contains_iff_mem, hid, if_true]
  · cases kind with
    | nonterminal => simp [Registry.use, intern, heq, h.terminals, SymbolTable.terminals_snoc]
    | terminal =>
      have hid : r.symbols.size ∉ r.symbols.terminals := fun hmem =>
        Nat.lt_irrefl _ (List.mem_range.mp (List.mem_filter.mp hmem).1)
      simp [Registry.use, intern, heq, h.terminals, SymbolTable.terminals_snoc, hid]

theorem step {d d' : Draft} (hstep : Draft.Step d d') (h : d.toRegistry.Sound) :
    d'.toRegistry.Sound := by
  cases hstep with
  | symbol kind leaf =>
    have huse := h.use kind leaf.name
    exact ⟨huse.nodup, huse.terminals⟩
  | construct node hnode => exact ⟨h.nodup, h.terminals⟩
  | relink place change hchange => exact h

/-- **An attempt at a production keeps a registry sound.** -/
theorem compile (h : r.Sound) (collapsing : Bool) (p : Production) :
    (compile r collapsing p).2.Sound := by
  obtain ⟨d, hadvances, hregistry, -⟩ := compile_advances r collapsing p
  rw [← hregistry]
  exact hadvances.keeps (P := fun d => d.toRegistry.Sound) (fun _ _ => step) h

end Registry.Sound

end Build

/-! ## 3. Nodes -/

/-- The kind of symbol that a node of this kind stands for. -/
def NodeKind.symbolKind? : NodeKind → Option SymbolKind
  | .terminal => some .terminal
  | .nonterminal => some .nonterminal
  | _ => none

theorem NodeKind.symbolKind?_eq_none {kind : NodeKind} (h : kind.isSymbol = false) :
    kind.symbolKind? = none := by
  cases kind <;> first | rfl | cases h

/-- **A node has a symbol of its kind,** or none if it is not the node of a symbol. -/
def Node.Labelled (t : SymbolTable) (node : Node) : Prop :=
  match node.kind.symbolKind? with
  | some kind => ∃ id, node.symbol = some id ∧ t.kind? id = some kind
  | none => node.symbol = none

namespace Node.Labelled

variable {t t' : SymbolTable} {node node' : Node}

/-- More symbols do not matter. -/
theorem mono (h : t.entries <+: t'.entries) (hnode : node.Labelled t) : node.Labelled t' := by
  unfold Labelled at hnode ⊢
  cases hkind : node.kind.symbolKind? with
  | none =>
    rw [hkind] at hnode
    exact hnode
  | some kind =>
    rw [hkind] at hnode
    obtain ⟨id, hid, hat⟩ := hnode
    exact ⟨id, hid, SymbolTable.kind?_of_prefix h hat⟩

/-- Nor do links. -/
theorem congr (hkind : node'.kind = node.kind) (hsymbol : node'.symbol = node.symbol)
    (h : node.Labelled t) : node'.Labelled t := by
  unfold Labelled at h ⊢
  rw [hkind, hsymbol]
  exact h

end Node.Labelled

namespace Build

/-- The nodes of a draft have the symbols that they should have. -/
def Draft.Labelled (d : Draft) : Prop :=
  ∀ (id : Nat) (node : Node), d.arena id = some node → node.Labelled d.symbols

namespace Draft.Labelled

variable {d d' : Draft}

theorem symbol (h : d.Labelled) (kind : SymbolKind) (leaf : Leaf) :
    (d.symbol kind leaf).1.Labelled := by
  have htable : (d.symbol kind leaf).1.symbols = (d.symbols.intern kind leaf.name).1 :=
    d.toRegistry.symbols_use kind leaf.name
  intro id node hn
  rw [Made.arena_symbol] at hn
  rw [htable]
  split at hn
  · cases hn
    have hnumber := d.toRegistry.number_use kind leaf.name
    have hkind := (SymbolTable.entries_eq_some_iff.mp
      (d.symbols.entries_intern kind leaf.name)).1
    rw [← hnumber] at hkind
    cases kind with
    | terminal => exact ⟨_, rfl, hkind⟩
    | nonterminal => exact ⟨_, rfl, hkind⟩
  · exact (h id node hn).mono (d.symbols.prefix_intern kind leaf.name)

theorem construct (h : d.Labelled) (node : Nat → Node) (hkind : ∀ n, (node n).kind.isSymbol = false)
    (hsymbol : ∀ n, (node n).symbol = none) : (d.push node).1.Labelled := by
  intro id x hx
  rw [arena_push] at hx
  split at hx
  · cases hx
    unfold Node.Labelled
    rw [NodeKind.symbolKind?_eq_none (hkind _)]
    exact hsymbol _
  · exact h id x hx

theorem relink (h : d.Labelled) (place : Nat) {change : Node → Node}
    (hkind : ∀ x, (change x).kind = x.kind) (hsymbol : ∀ x, (change x).symbol = x.symbol) :
    Draft.Labelled { d with nodes := d.nodes.modify place change } := by
  intro id x hx
  rw [arena, Array.getElem?_modify] at hx
  split at hx
  · obtain ⟨before, hbefore, rfl⟩ := Option.map_eq_some_iff.mp hx
    exact (h id before hbefore).congr (hkind before) (hsymbol before)
  · exact h id x hx

/-- **A step of building leaves no node with a wrong symbol.** -/
theorem step (hstep : Draft.Step d d') (h : d.Labelled) : d'.Labelled := by
  cases hstep with
  | symbol kind leaf => exact h.symbol kind leaf
  | construct node hnode =>
    exact h.construct node (fun n => (hnode n).2.1) fun n => (hnode n).2.2.1
  | relink place change hchange =>
    exact h.relink place (fun x => (hchange x).2.1) fun x => (hchange x).2.2.1

end Draft.Labelled

/-- **The nodes of a graph have the symbols that they should have,** in the table that was left. -/
theorem labelled_of_compile {r : Registry} {collapsing : Bool} {p : Production} {g : Graph}
    (h : (compile r collapsing p).1 = .ok g) :
    ∀ node ∈ g.nodes, node.Labelled (compile r collapsing p).2.symbols := by
  obtain ⟨d, hadvances, hregistry, hnodes⟩ := compile_advances r collapsing p
  have hd : d.Labelled :=
    hadvances.keeps (fun _ _ => Draft.Labelled.step) fun id node hn => by cases hn
  intro node hnode
  rw [hnodes g h] at hnode
  obtain ⟨id, hid, rfl⟩ := Array.mem_iff_getElem.mp hnode
  rw [← hregistry]
  exact hd id _ (Array.getElem?_eq_getElem hid)

end Build

end Railroad
