/-
# Sessions

A session is a list of attempts to define names, one after the other.  An attempt that fails is kept as
far as it went: the symbols that it named and the serial numbers that it took are used up.  An attempt
that succeeds may put a graph in the place of an older one.

Whatever the attempts were, a grammar is well-formed afterwards (`session_wellFormed`): symbols and
numbers stand for each other and go on doing so, the terminals are all noted down, rules are for
nonterminals, each node has a symbol of its own kind or none, and no two nodes have the same serial
number.

`Grammar.WellFormed` is the invariant of all of this.  Each attempt keeps it (`WellFormed.add`), in
two steps: the registry grows (`registry_later`), and, if the attempt succeeded, a rule with new
serial numbers is put in (`insertRule`).  A failed attempt is the first step alone.

Numbers of symbols and serial numbers of nodes go different ways.  A symbol keeps its number for
good, so a longer session extends the table at its end; a serial number is used once and is not
given back when an attempt fails or a graph is replaced, so the numbers in use have gaps but never
meet.
-/
import Railroad.Proofs.Build.Symbols
import Railroad.Proofs.Grammar.Definitions
import Railroad.Proofs.Layout.Integrity

namespace Railroad

open Build

namespace Grammar

/-! ## 1. Attempts -/

/-- **An attempt to define a name,** looking for reruns or not.  A session may do both. -/
structure Attempt where
  collapsing : Bool
  production : Production

/-- The grammar after an attempt, whatever came of it. -/
def step (g : Grammar) (a : Attempt) : Grammar := (g.add a.collapsing a.production).2

/-- **The grammar after a session.**  It is a fold, so longer sessions go on from shorter ones. -/
def after (g : Grammar) (session : List Attempt) : Grammar := session.foldl step g

theorem after_append (g : Grammar) (session more : List Attempt) :
    g.after (session ++ more) = (g.after session).after more :=
  List.foldl_append

theorem Reached.after {g : Grammar} (h : g.Reached) (session : List Attempt) :
    (g.after session).Reached := by
  induction session generalizing g with
  | nil => exact h
  | cons a session ih => exact ih (h.add a.collapsing a.production)

/-- What an attempt does to the registry. -/
theorem toRegistry_add (g : Grammar) (collapsing : Bool) (p : Production) :
    (g.add collapsing p).2.toRegistry = (compile (g.naming p.name) collapsing p).2 := by
  obtain ⟨e, r, hcompile, hadd⟩ | ⟨graph, r, hcompile, hadd⟩ := add_cases g collapsing p <;>
    rw [hcompile, hadd]

theorem extends_naming (g : Grammar) (name : String) : g.toRegistry.Extends (g.naming name) :=
  g.toRegistry.extends_use .nonterminal name

/-- **An attempt takes nothing off the registry.** -/
theorem extends_add (g : Grammar) (collapsing : Bool) (p : Production) :
    g.toRegistry.Extends (g.add collapsing p).2.toRegistry := by
  rw [toRegistry_add]
  exact (g.extends_naming p.name).trans (compile_extends _ collapsing p)

theorem extends_after (g : Grammar) (session : List Attempt) :
    g.toRegistry.Extends (g.after session).toRegistry := by
  induction session generalizing g with
  | nil => exact .refl _
  | cons a session ih => exact (g.extends_add a.collapsing a.production).trans (ih _)

/-! ## 2. Rules -/

/-- A rule stays at its place when its symbol is defined again. -/
theorem keys_insertRule (symbol : SymbolId) (graph : Graph) :
    ∀ rules : List (SymbolId × Graph), (insertRule symbol graph rules).map Prod.fst
      = if symbol ∈ rules.map Prod.fst then rules.map Prod.fst else rules.map Prod.fst ++ [symbol]
  | [] => rfl
  | (other, old) :: rules => by
    rw [insertRule]
    by_cases h : other = symbol
    · simp [h]
    · have hne : symbol ≠ other := fun heq => h heq.symm
      simp only [beq_iff_eq, h, if_false, List.map_cons, List.mem_cons, hne, false_or,
        keys_insertRule symbol graph rules]
      split <;> rfl

/-- What holds between any two rules, and between a new one and each of them, holds with the new one in
its place. -/
theorem pairwise_insertRule {R : SymbolId × Graph → SymbolId × Graph → Prop}
    (hsymm : ∀ a b, R a b → R b a) {symbol : SymbolId} {graph : Graph} :
    ∀ {rules : List (SymbolId × Graph)}, (∀ rule ∈ rules, R (symbol, graph) rule) →
    rules.Pairwise R → (insertRule symbol graph rules).Pairwise R
  | [], _, _ => List.pairwise_singleton R _
  | (other, old) :: rules, hnew, h => by
    have hrest : ∀ rule ∈ rules, R (symbol, graph) rule :=
      fun rule hrule => hnew rule (List.mem_cons_of_mem _ hrule)
    obtain ⟨hold, h⟩ := List.pairwise_cons.mp h
    rw [insertRule]
    split
    · exact List.pairwise_cons.mpr ⟨hrest, h⟩
    · refine List.pairwise_cons.mpr ⟨fun rule hrule => ?_, pairwise_insertRule hsymm hrest h⟩
      rcases mem_insertRule hrule with rfl | hrule
      · exact hsymm _ _ (hnew _ List.mem_cons_self)
      · exact hold rule hrule

/-! ## 3. Well-formed grammars -/

/-- **A grammar is well-formed.**  None of the fields speaks of how the grammar came about. -/
structure WellFormed (g : Grammar) : Prop where
  /-- Each symbol has one number, and the terminals are those of the table in the order of their
  numbers. -/
  registry : g.toRegistry.Sound
  /-- A name has one rule at most, -/
  once : g.nonterminals.Nodup
  /-- and only nonterminals have rules. -/
  nonterminals : ∀ id ∈ g.nonterminals, g.symbols.kind? id = some .nonterminal
  /-- A node has a symbol of its kind, or none if it is not the node of a symbol. -/
  labelled : ∀ rule ∈ g.rules, ∀ node ∈ rule.2.nodes, node.Labelled g.symbols
  /-- Serial numbers go up along the nodes of a graph, -/
  increasing : ∀ rule ∈ g.rules, rule.2.serials.Pairwise (· < ·)
  /-- no two nodes of all graphs have the same one, -/
  distinct : (g.rules.flatMap fun rule => rule.2.serials).Nodup
  /-- and the next one is above them all. -/
  below : ∀ rule ∈ g.rules, ∀ n ∈ rule.2.serials, n < g.nextSerial

namespace WellFormed

variable {g : Grammar}

theorem empty : WellFormed {} where
  registry := ⟨List.nodup_nil, rfl⟩
  once := List.nodup_nil
  nonterminals := List.forall_mem_nil _
  labelled := List.forall_mem_nil _
  increasing := List.forall_mem_nil _
  distinct := List.nodup_nil
  below := List.forall_mem_nil _

/-- More symbols and serial numbers do not matter. -/
theorem registry_later (h : g.WellFormed) {r : Registry} (hr : r.Sound)
    (hextends : g.toRegistry.Extends r) : WellFormed { r with rules := g.rules } where
  registry := hr
  once := h.once
  nonterminals id hid := SymbolTable.kind?_of_prefix hextends.symbols (h.nonterminals id hid)
  labelled rule hrule node hnode := (h.labelled rule hrule node hnode).mono hextends.symbols
  increasing := h.increasing
  distinct := h.distinct
  below rule hrule n hn := Nat.lt_of_lt_of_le (h.below rule hrule n hn) hextends.serials

/-- **A rule with a new graph** keeps a grammar well-formed if its serial numbers are new. -/
theorem insertRule (h : g.WellFormed) {symbol : SymbolId} {graph : Graph} {first : Nat}
    (hsymbol : g.symbols.kind? symbol = some .nonterminal)
    (hlabelled : ∀ node ∈ graph.nodes, node.Labelled g.symbols)
    (hserials : graph.serials = List.range' first graph.nodes.size)
    (hold : ∀ rule ∈ g.rules, ∀ n ∈ rule.2.serials, n < first)
    (hnext : g.nextSerial = first + graph.nodes.size) :
    WellFormed { g with rules := Grammar.insertRule symbol graph g.rules } where
  registry := h.registry
  once := by
    show ((Grammar.insertRule symbol graph g.rules).map Prod.fst).Nodup
    rw [keys_insertRule]
    split
    · exact h.once
    · rename_i hnew
      exact List.concat_eq_append ▸ List.Nodup.concat hnew h.once
  nonterminals id hid := by
    obtain ⟨rule, hrule, rfl⟩ := List.mem_map.mp hid
    rcases mem_insertRule hrule with rfl | hrule
    · exact hsymbol
    · exact h.nonterminals _ (List.mem_map_of_mem hrule)
  labelled rule hrule := by
    rcases mem_insertRule hrule with rfl | hrule
    · exact hlabelled
    · exact h.labelled rule hrule
  increasing rule hrule := by
    rcases mem_insertRule hrule with rfl | hrule
    · rw [hserials]
      exact List.pairwise_lt_range'
    · exact h.increasing rule hrule
  distinct := by
    obtain ⟨hnodup, hdisjoint⟩ := List.nodup_flatMap.mp h.distinct
    refine List.nodup_flatMap.mpr ⟨fun rule hrule => ?_,
      pairwise_insertRule (fun _ _ hab => hab.symm) ?_ hdisjoint⟩
    · rcases mem_insertRule hrule with rfl | hrule
      · rw [hserials]
        exact List.nodup_range'
      · exact hnodup rule hrule
    · intro rule hrule n (hn : n ∈ graph.serials) hn'
      rw [hserials] at hn
      have hlt := hold rule hrule n hn'
      have hle := (List.mem_range'_1.mp hn).1
      omega
  below rule hrule n hn := by
    rcases mem_insertRule hrule with rfl | hrule
    · rw [hserials] at hn
      show n < g.nextSerial
      rw [hnext]
      exact (List.mem_range'_1.mp hn).2
    · exact h.below rule hrule n hn

/-- **An attempt leaves a grammar well-formed,** whatever comes of it. -/
theorem add (h : g.WellFormed) (collapsing : Bool) (p : Production) :
    (g.add collapsing p).2.WellFormed := by
  have hnaming : (g.naming p.name).Sound := h.registry.use .nonterminal p.name
  have hsound := hnaming.compile collapsing p
  have hextends := compile_extends (g.naming p.name) collapsing p
  have hlater := h.registry_later hsound ((g.extends_naming p.name).trans hextends)
  obtain ⟨e, r, hcompile, hadd⟩ | ⟨graph, r, hcompile, hadd⟩ := add_cases g collapsing p
  · rw [hadd]
    rw [hcompile] at hlater
    exact hlater
  · have hok : (compile (g.naming p.name) collapsing p).1 = .ok graph := congrArg Prod.fst hcompile
    have hlabelled := labelled_of_compile hok
    have hnumbered := numbered_of_compile hok
    have hnumber := SymbolTable.entries_eq_some_iff.mp
      (SymbolTable.entries_lookup (g.lookup_naming p.name))
    have hkind := SymbolTable.kind?_of_prefix hextends.symbols hnumber.1
    rw [hcompile] at hlater hlabelled hnumbered hkind
    rw [hadd]
    refine hlater.insertRule hkind hlabelled (serials_of_compile hok) ?_ hnumbered.next
    intro rule hrule n hn
    exact Nat.lt_of_lt_of_le (h.below rule hrule n hn) (g.extends_naming p.name).serials

end WellFormed

theorem Reached.wellFormed {g : Grammar} (h : g.Reached) : g.WellFormed := by
  induction h with
  | empty => exact .empty
  | add _ collapsing p ih => exact ih.add collapsing p

/-- **A grammar is well-formed after every session.**  The numbers below the size of its table and
the symbols in it stand for each other, and a number keeps its meaning in every longer session.

A session may define a name twice, fail at any place, and go on.  The second and third point say
that numbers and symbols are in bijection; the last one that a number which has been handed out
stays what it is. -/
theorem session_wellFormed (session more : List Attempt) :
    (after {} session).WellFormed ∧
    (∀ id, id < (after {} session).symbols.size ↔
      ∃ kind name, (after {} session).symbols.lookup kind name = some id) ∧
    (∀ kind name id, (after {} session).symbols.lookup kind name = some id ↔
      (after {} session).symbols.kind? id = some kind ∧
        (after {} session).symbols.name? id = some name) ∧
    ∀ kind name id, (after {} session).symbols.lookup kind name = some id →
      (after {} (session ++ more)).symbols.lookup kind name = some id := by
  have hwell := (Reached.empty.after session).wellFormed
  refine ⟨hwell, fun id => ⟨fun hid => ?_, ?_⟩, fun kind name id => ?_, fun kind name id hid => ?_⟩
  · have hentry := SymbolTable.entries_eq_some_iff.mp (List.getElem?_eq_getElem hid)
    exact ⟨_, _, (SymbolTable.lookup_eq_some_iff hwell.registry.nodup).mpr hentry⟩
  · rintro ⟨kind, name, hid⟩
    exact SymbolTable.lt_size_of_lookup hid
  · exact SymbolTable.lookup_eq_some_iff hwell.registry.nodup
  · rw [after_append]
    exact SymbolTable.lookup_of_prefix (extends_after _ more).symbols hid

end Grammar

end Railroad
