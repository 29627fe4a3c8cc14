/-
# The definitions of a session

An attempt that succeeds defines its name, and the graph of a name is the one of its last definition.
The names are those that were ever defined, and stand in the order of their first definitions
(`session_defines`).  A name that is only used in expressions, or that no attempt could define, has no
graph.

Rules are kept by the numbers of their symbols, and a name is numbered when it is first met, which may
be long before it is defined.  What brings names and rules together again is that the grammar is
well-formed: a name has one number, and it is a nonterminal's (`mem_names_iff`).

`definitions` runs the session and writes down what succeeded.  It is computed from the attempts and
the tables that they meet, never from the rules of the grammar, so comparing the two says something.
Both halves, the names and the graphs, go by adding one attempt at the end of a session, because
that is what the order of names and the word "last" are about.

The delicate half is the order.  `insertRule` leaves a rule where it is when its name is defined
again, so the names of a grammar are in the order of their *first* definitions, which is the order
of the rules only because a name has one number and a number has one rule.
-/
import Railroad.Proofs.Grammar.Sessions

namespace Railroad

open Build

theorem SymbolTable.name?_of_prefix {t t' : SymbolTable} {id : SymbolId}
    (h : t.entries <+: t'.entries) (hid : id < t.size) : t'.name? id = t.name? id := by
  unfold name?
  rw [SymbolTable.entries_of_prefix h (List.getElem?_eq_getElem hid), List.getElem?_eq_getElem hid]

namespace Grammar

variable {g : Grammar} {name : String}

/-! ## 1. Definitions -/

/-- **What an attempt defines:** its name with the graph that it is compiled to, if it can be
compiled. -/
def defined? (g : Grammar) (a : Attempt) : Option (String × Graph) :=
  (compile (g.naming a.production.name) a.collapsing a.production).1.toOption.map
    (a.production.name, ·)

/-- **The definitions of a session,** in order.  Each attempt is compiled with the table that the
attempts before it have left. -/
def definitions (g : Grammar) : List Attempt → List (String × Graph)
  | [] => []
  | a :: session => (g.defined? a).toList ++ (g.step a).definitions session

theorem definitions_append (g : Grammar) (session more : List Attempt) :
    g.definitions (session ++ more)
      = g.definitions session ++ (g.after session).definitions more := by
  induction session generalizing g with
  | nil => rfl
  | cons a session ih =>
    rw [List.cons_append, definitions, definitions, ih, List.append_assoc]
    rfl

theorem definitions_snoc (g : Grammar) (session : List Attempt) (a : Attempt) :
    g.definitions (session ++ [a])
      = g.definitions session ++ ((g.after session).defined? a).toList := by
  rw [definitions_append, definitions, definitions, List.append_nil]

theorem after_snoc (g : Grammar) (session : List Attempt) (a : Attempt) :
    g.after (session ++ [a]) = (g.after session).step a :=
  g.after_append session [a]

/-- **What an attempt does:** it defines its name, or it fails and no rule is changed. -/
theorem step_cases (g : Grammar) (a : Attempt) :
    (∃ e, (g.add a.collapsing a.production).1 = .error e ∧ g.defined? a = none ∧
      (g.step a).rules = g.rules) ∨
    ∃ graph, (g.add a.collapsing a.production).1 = .ok (g.number a.production.name) ∧
      g.defined? a = some (a.production.name, graph) ∧
      (g.step a).rules = insertRule (g.number a.production.name) graph g.rules := by
  unfold defined? step
  obtain ⟨e, r, hcompile, hadd⟩ | ⟨graph, r, hcompile, hadd⟩ := add_cases g a.collapsing a.production
  · exact .inl ⟨e, by rw [hadd], by rw [hcompile]; rfl, by rw [hadd]⟩
  · exact .inr ⟨graph, by rw [hadd], by rw [hcompile]; rfl, by rw [hadd]⟩

/-- An attempt succeeds if it defines its name. -/
theorem isOk_add (g : Grammar) (a : Attempt) :
    (g.add a.collapsing a.production).1.isOk = (g.defined? a).isSome := by
  obtain ⟨e, hadd, hdefined, -⟩ | ⟨graph, hadd, hdefined, -⟩ := g.step_cases a <;>
    rw [hadd, hdefined] <;> rfl

/-! ## 2. Graphs -/

theorem graph?_step (h : g.Reached) (a : Attempt) (name : String) :
    (g.step a).graph? name = match g.defined? a with
      | some (defined, graph) => if defined = name then some graph else g.graph? name
      | none => g.graph? name := by
  have hadd := graph?_add h a.collapsing a.production name
  unfold defined?
  cases hcompile : (compile (g.naming a.production.name) a.collapsing a.production).1 with
  | error e =>
    rw [hcompile] at hadd
    exact hadd
  | ok graph =>
    rw [hcompile] at hadd
    exact hadd

/-- **The graph of a name is that of its last definition.** -/
theorem graph?_after (session : List Attempt) (name : String) :
    (after {} session).graph? name = (definitions {} session).reverse.lookup name := by
  induction session using List.reverseRecOn with
  | nil => rfl
  | append_singleton session a ih =>
    rw [after_snoc, definitions_snoc, graph?_step (Reached.empty.after session), List.reverse_append]
    cases (after {} session).defined? a with
    | none => exact ih
    | some definition =>
      obtain ⟨defined, graph⟩ := definition
      rw [Option.toList_some, List.reverse_singleton, List.singleton_append, List.lookup_cons, ← ih]
      show (if defined = name then some graph else _) = _
      by_cases hname : defined = name
      · rw [if_pos hname, beq_iff_eq.mpr hname.symm]
      · rw [if_neg hname, beq_false_of_ne fun h => hname h.symm]

/-! ## 3. Names -/

/-- The name of a rule is the name of a nonterminal. -/
theorem WellFormed.lookup_of_mem (h : g.WellFormed) {id : SymbolId} (hid : id ∈ g.nonterminals)
    (hname : g.symbols.name? id = some name) : g.symbols.lookup .nonterminal name = some id :=
  (SymbolTable.lookup_eq_some_iff h.registry.nodup).mpr ⟨h.nonterminals id hid, hname⟩

/-- **The names that are listed are those with a graph.** -/
theorem mem_names_iff (h : g.WellFormed) : name ∈ g.names ↔ ∃ graph, g.graph? name = some graph := by
  rw [names, List.mem_filterMap]
  constructor
  · rintro ⟨id, hid, hname⟩
    obtain ⟨rule, hrule, rfl⟩ := List.mem_map.mp hid
    have hsome : (g.rules.lookup rule.1).isSome :=
      List.lookup_isSome_iff.mpr ⟨rule, hrule, BEq.rfl⟩
    obtain ⟨graph, hgraph⟩ := Option.isSome_iff_exists.mp hsome
    exact ⟨graph, Option.bind_eq_some_iff.mpr ⟨rule.1, h.lookup_of_mem hid hname, hgraph⟩⟩
  · rintro ⟨graph, hgraph⟩
    obtain ⟨id, hid, hrule⟩ := Option.bind_eq_some_iff.mp hgraph
    obtain ⟨before, behind, hrules, -⟩ := List.lookup_eq_some_iff.mp hrule
    have hmem : id ∈ g.nonterminals := List.mem_map.mpr ⟨(id, graph), by simp [hrules], rfl⟩
    exact ⟨id, hmem, ((SymbolTable.lookup_eq_some_iff h.registry.nodup).mp hid).2⟩

theorem number_of_lookup {id : SymbolId} (h : g.symbols.lookup .nonterminal name = some id) :
    g.number name = id := by
  rw [number, SymbolTable.intern, h]

/-- **A definition of a new name puts it at the end,** and nothing else changes the names. -/
theorem names_step (h : g.Reached) (a : Attempt) :
    (g.step a).names = match g.defined? a with
      | some (defined, _) => if defined ∈ g.names then g.names else g.names ++ [defined]
      | none => g.names := by
  have hgrows : g.symbols.entries <+: (g.step a).symbols.entries :=
    (g.extends_add a.collapsing a.production).symbols
  have hold : g.nonterminals.filterMap (g.step a).symbols.name? = g.names := by
    refine List.filterMap_congr fun id hid => SymbolTable.name?_of_prefix hgrows ?_
    obtain ⟨rule, hrule, rfl⟩ := List.mem_map.mp hid
    exact h.number_lt rule hrule
  obtain ⟨e, -, hdefined, hrules⟩ | ⟨graph, -, hdefined, hrules⟩ := g.step_cases a
  · rw [hdefined, names, nonterminals, hrules]
    exact hold
  · have hnumber : (g.step a).symbols.name? (g.number a.production.name)
        = some a.production.name := by
      have hlookup := SymbolTable.lookup_of_prefix
        (symbols_add g a.collapsing a.production) (g.lookup_naming a.production.name)
      exact (SymbolTable.entries_eq_some_iff.mp (SymbolTable.entries_lookup hlookup)).2
    rw [hdefined, names, nonterminals, hrules, keys_insertRule]
    show (if g.number a.production.name ∈ g.nonterminals then g.nonterminals
        else g.nonterminals ++ [g.number a.production.name]).filterMap _
      = if a.production.name ∈ g.names then g.names else g.names ++ [a.production.name]
    split
    case isTrue hmem =>
      have hlisted : a.production.name ∈ g.names :=
        hold ▸ List.mem_filterMap.mpr ⟨_, hmem, hnumber⟩
      rw [hold, if_pos hlisted]
    case isFalse hnew =>
      have hlisted : a.production.name ∉ g.names := by
        intro hmem
        obtain ⟨id, hid, hname⟩ := List.mem_filterMap.mp hmem
        rw [number_of_lookup (h.wellFormed.lookup_of_mem hid hname)] at hnew
        exact hnew hid
      rw [List.filterMap_append, hold, if_neg hlisted, List.filterMap_cons, hnumber,
        List.filterMap_nil]

/-- What comes last is a duplicate, or it stays at the end. -/
theorem eraseDups_concat (names : List String) (name : String) : (names ++ [name]).eraseDups
    = if name ∈ names then names.eraseDups else names.eraseDups ++ [name] := by
  rw [List.eraseDups_append, List.removeAll, List.filter_cons]
  by_cases h : name ∈ names <;> simp [h, List.eraseDups_cons]

/-- **The names stand in the order of their first definitions.** -/
theorem names_after (session : List Attempt) :
    (after {} session).names = ((definitions {} session).map Prod.fst).eraseDups := by
  induction session using List.reverseRecOn with
  | nil => rfl
  | append_singleton session a ih =>
    rw [after_snoc, definitions_snoc, names_step (Reached.empty.after session), List.map_append]
    cases (after {} session).defined? a with
    | none => rw [ih, Option.toList_none, List.map_nil, List.append_nil]
    | some definition =>
      rw [Option.toList_some, List.map_singleton, eraseDups_concat, ih]
      simp only [List.mem_eraseDups]

/-! ## 4. Sessions -/

variable {α : Type}

/-- **What a session defines.**  The names are those that were defined, in the order of their first
definitions, and a name has the graph of its last one; no other name has a graph.  An attempt that
fails, or that is for another name, leaves the graph of a name as it is.  All that an attempt that
fails can do is to add symbols and terminals at the end and to use up serial numbers. -/
theorem session_defines (session : List Attempt) :
    (after {} session).names = ((definitions {} session).map Prod.fst).eraseDups ∧
    (∀ name, (after {} session).graph (α := α) name =
      match (definitions {} session).reverse.lookup name with
      | some graph => .ok graph
      | none => .error (.lookup name)) ∧
    (∀ name, name ∈ (after {} session).names ↔
      ∃ graph, (after {} session).graph (α := α) name = .ok graph) ∧
    ∀ a, ((after {} session).add a.collapsing a.production).1.isOk
        = ((after {} session).defined? a).isSome ∧
      (∀ name, a.production.name ≠ name ∨ (after {} session).defined? a = none →
        ((after {} session).step a).graph (α := α) name = (after {} session).graph name) ∧
      ((after {} session).defined? a = none →
        ((after {} session).step a).rules = (after {} session).rules ∧
        (after {} session).toRegistry.Extends ((after {} session).step a).toRegistry) := by
  have hreached := Reached.empty.after session
  refine ⟨names_after session, fun name => ?_, fun name => ?_, fun a => ⟨isOk_add _ a, ?_, ?_⟩⟩
  · have hgraph := graph?_after session name
    unfold graph
    cases hlast : (definitions {} session).reverse.lookup name <;> simp only [hgraph, hlast]
  · rw [mem_names_iff hreached.wellFormed, graph]
    cases (after {} session).graph? name <;> simp
  · intro name hother
    have hsame : ((after {} session).step a).graph? name = (after {} session).graph? name := by
      rw [graph?_step hreached]
      obtain ⟨e, -, hdefined, -⟩ | ⟨graph, -, hdefined, -⟩ := (after {} session).step_cases a
      · rw [hdefined]
      · rw [hdefined]
        exact if_neg (hother.resolve_right (by simp [hdefined]))
    rw [graph, graph, hsame]
  · intro hfailed
    obtain ⟨e, -, -, hrules⟩ | ⟨graph, -, hdefined, -⟩ := (after {} session).step_cases a
    · exact ⟨hrules, extends_add _ a.collapsing a.production⟩
    · rw [hfailed] at hdefined
      cases hdefined

end Grammar

end Railroad
