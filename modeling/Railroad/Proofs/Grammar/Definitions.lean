/-
# The last definition of a name

A name may be defined again, and a definition may fail.  Its graph is the one that its last successful
definition was compiled to, in the registry as it was at that time, whatever was added to the
grammar before and after (`Defined.holds`).

A failed definition leaves symbols behind, and so do those of other names.  They are added at the end of
the table, so the numbers that were given out before still stand for the same symbols.

`Grammar.Defined` is a history with most of it left out: it remembers how a name was last defined
with success and allows anything else to have happened in between.  That is what makes the theorems
about single diagrams strong, since two grammars need to agree on nothing but this.

The step is `Reached.graph?_add`, which looks at one added production; `Grammar.Defined.holds` is
the induction over it.  What has to be carried along is that the old graph was compiled with a table
that the present one extends, because graphs hold numbers and numbers mean nothing without a table.
-/
import Railroad.Proofs.Build.Parallel
import Railroad.Proofs.Grammar.Reached

namespace Railroad

open Build

/-! ## 1. Tables that grow -/

namespace SymbolTable

variable {t t' : SymbolTable} {kind : SymbolKind} {name : String} {id : SymbolId}

theorem lookup_of_prefix (h : t.entries <+: t'.entries) (hid : t.lookup kind name = some id) :
    t'.lookup kind name = some id := by
  obtain ⟨more, hmore⟩ := h
  rw [lookup, List.idxOf?] at hid ⊢
  rw [← hmore, List.findIdx?_append, hid]
  rfl

/-- A symbol that is new has a number behind all others. -/
theorem size_le_of_lookup (h : t.entries <+: t'.entries) (hnone : t.lookup kind name = none)
    (hid : t'.lookup kind name = some id) : t.size ≤ id := by
  refine Nat.le_of_not_lt fun hlt => ?_
  have hat := List.prefix_iff_getElem?.mp h id hlt
  rw [entries_lookup hid] at hat
  obtain ⟨old, hold⟩ := exists_lookup (List.getElem_mem hlt)
  rw [← Option.some.inj hat, hnone] at hold
  cases hold

theorem lt_size_of_lookup (hid : t.lookup kind name = some id) : id < t.size :=
  (List.getElem?_eq_some_iff.mp (entries_lookup hid)).1

end SymbolTable

namespace Grammar

/-! ## 2. Adding a production -/

theorem lookup_cons_rule (symbol other : SymbolId) (graph : Graph)
    (rules : List (SymbolId × Graph)) :
    ((symbol, graph) :: rules).lookup other
      = if other = symbol then some graph else rules.lookup other := by
  rw [List.lookup_cons]
  by_cases h : other = symbol
  · rw [if_pos h, beq_iff_eq.mpr h]
  · rw [if_neg h, beq_false_of_ne h]

theorem lookup_insertRule (symbol other : SymbolId) (graph : Graph) :
    ∀ rules : List (SymbolId × Graph), (insertRule symbol graph rules).lookup other
      = if other = symbol then some graph else rules.lookup other
  | [] => lookup_cons_rule symbol other graph []
  | (first, old) :: rules => by
    rw [insertRule]
    by_cases hfirst : first = symbol
    · subst hfirst
      rw [if_pos BEq.rfl, lookup_cons_rule, lookup_cons_rule]
      split <;> rfl
    · rw [if_neg (by simpa using hfirst), lookup_cons_rule, lookup_cons_rule,
        lookup_insertRule symbol other graph rules]
      by_cases h : other = first
      · rw [if_pos h, if_pos h, if_neg (h ▸ hfirst)]
      · rw [if_neg h, if_neg h]

variable {g : Grammar} {collapsing : Bool} {p : Production} {name : String}

/-- The name of a production is numbered, whatever comes of it, and all numbers stay. -/
theorem symbols_add (g : Grammar) (collapsing : Bool) (p : Production) :
    (g.naming p.name).symbols.entries <+: (g.add collapsing p).2.symbols.entries := by
  have hgrows := (compile_extends (g.naming p.name) collapsing p).symbols
  obtain ⟨e, r, hcompile, hadd⟩ | ⟨graph, r, hcompile, hadd⟩ := add_cases g collapsing p <;>
    rw [hcompile] at hgrows <;> rw [hadd] <;> exact hgrows

theorem prefix_naming (g : Grammar) (name : String) :
    g.symbols.entries <+: (g.naming name).symbols.entries :=
  g.symbols.prefix_intern .nonterminal name

theorem lookup_naming (g : Grammar) (name : String) :
    (g.naming name).symbols.lookup .nonterminal name = some (g.number name) :=
  g.symbols.lookup_intern .nonterminal name

/-- **The rules of a grammar are for symbols of its table.** -/
theorem Reached.number_lt (h : g.Reached) : ∀ rule ∈ g.rules, rule.1 < g.symbols.size := by
  induction h with
  | empty => exact List.forall_mem_nil _
  | @add g _ collapsing p ih =>
    have hnaming := symbols_add g collapsing p
    have hgrows := (g.prefix_naming p.name).trans hnaming
    have hold : ∀ rule ∈ g.rules, rule.1 < (g.add collapsing p).2.symbols.size :=
      fun rule hrule => Nat.lt_of_lt_of_le (ih rule hrule) hgrows.length_le
    obtain ⟨e, r, -, hadd⟩ | ⟨graph, r, -, hadd⟩ := add_cases g collapsing p
    · rw [hadd] at hold ⊢
      exact hold
    · intro rule hrule
      rw [hadd] at hrule
      rcases mem_insertRule hrule with rfl | hrule
      · exact SymbolTable.lt_size_of_lookup
          (SymbolTable.lookup_of_prefix hnaming (g.lookup_naming p.name))
      · exact hold rule hrule

/-- Without a new rule, a larger table does not change the graph of a name. -/
theorem graph?_of_prefix {symbols : SymbolTable} (h : g.Reached)
    (hgrows : g.symbols.entries <+: symbols.entries) (name : String) :
    (symbols.lookup .nonterminal name).bind (g.rules.lookup ·) = g.graph? name := by
  rw [graph?]
  cases hold : g.symbols.lookup .nonterminal name with
  | some id => rw [SymbolTable.lookup_of_prefix hgrows hold]; rfl
  | none =>
    cases hnew : symbols.lookup .nonterminal name with
    | none => rfl
    | some id =>
      have hle := SymbolTable.size_le_of_lookup hgrows hold hnew
      refine List.lookup_eq_none_iff.mpr fun rule hrule => ?_
      have hne : id ≠ rule.1 := Nat.ne_of_gt (Nat.lt_of_lt_of_le (h.number_lt rule hrule) hle)
      simpa using hne

/-- **The graph of a name after a production was added** is the new one, if the production is for the
name and could be compiled, and otherwise it is what it was. -/
theorem graph?_add (h : g.Reached) (collapsing : Bool) (p : Production) (name : String) :
    (g.add collapsing p).2.graph? name = match (compile (g.naming p.name) collapsing p).1 with
      | .ok graph => if p.name = name then some graph else g.graph? name
      | .error _ => g.graph? name := by
  have hnaming := symbols_add g collapsing p
  have hgrows := (g.prefix_naming p.name).trans hnaming
  obtain ⟨e, r, hcompile, hadd⟩ | ⟨graph, r, hcompile, hadd⟩ := add_cases g collapsing p
  · rw [hcompile]
    rw [hadd] at hgrows ⊢
    exact graph?_of_prefix h hgrows name
  · rw [hcompile]
    rw [hadd] at hnaming hgrows ⊢
    have hnumber := SymbolTable.lookup_of_prefix hnaming (g.lookup_naming p.name)
    show (r.symbols.lookup .nonterminal name).bind
        ((insertRule (g.number p.name) graph g.rules).lookup ·)
      = if p.name = name then some graph else g.graph? name
    by_cases hname : p.name = name
    · subst hname
      rw [if_pos rfl, hnumber, Option.bind_some, lookup_insertRule, if_pos rfl]
    · rw [if_neg hname, ← graph?_of_prefix h hgrows name]
      cases hid : r.symbols.lookup .nonterminal name with
      | none => rfl
      | some id =>
        have hne : id ≠ g.number p.name := by
          rintro rfl
          have hsame := (SymbolTable.entries_lookup hid).symm.trans
            (SymbolTable.entries_lookup hnumber)
          cases hsame
          exact hname rfl
        rw [Option.bind_some, Option.bind_some, lookup_insertRule, if_neg hne]

/-! ## 3. Histories -/

/-- **A grammar, and how a name was last defined in it with success:** looking for reruns or not,
and by which expression.  Whatever else was added to the grammar, it may have failed.  It forgets
how often and in which order names were added. -/
inductive Defined (name : String) : Option (Bool × Expr) → Grammar → Prop where
  | empty : Defined name none {}
  | add {last : Option (Bool × Expr)} {g : Grammar} (h : Defined name last g) (collapsing : Bool)
    (p : Production) :
    Defined name
      (if p.name = name ∧ (g.add collapsing p).1.isOk then some (collapsing, p.expr) else last)
      (g.add collapsing p).2

/-- **The graph of a name** is what a definition was compiled to with a part of the table. -/
def Holds (g : Grammar) (name : String) : Option (Bool × Expr) → Prop
  | none => g.graph? name = none
  | some (collapsing, expr) => ∃ r s graph,
    compile r collapsing { name, expr } = (.ok graph, s) ∧
      s.symbols.entries <+: g.symbols.entries ∧ g.graph? name = some graph

namespace Defined

variable {last : Option (Bool × Expr)}

theorem reached (h : Defined name last g) : g.Reached := by
  induction h with
  | empty => exact .empty
  | add _ collapsing p ih => exact ih.add collapsing p

/-- **A name has the graph of its last definition.** -/
theorem holds (h : Defined name last g) : g.Holds name last := by
  induction h with
  | empty => rfl
  | @add last g h collapsing p ih =>
    have hgraph := graph?_add h.reached collapsing p name
    have hgrows := (g.prefix_naming p.name).trans (symbols_add g collapsing p)
    -- A definition that is not touched is held on to, in a larger table.
    have hkept (hsame : (g.add collapsing p).2.graph? name = g.graph? name) :
        (g.add collapsing p).2.Holds name last := by
      cases last with
      | none => exact hsame.trans ih
      | some definition =>
        obtain ⟨r, s, graph, hcompile, hprefix, hheld⟩ := ih
        exact ⟨r, s, graph, hcompile, hprefix.trans hgrows, hsame.trans hheld⟩
    obtain ⟨e, r, hcompile, hadd⟩ | ⟨graph, r, hcompile, hadd⟩ := add_cases g collapsing p
    · rw [hcompile] at hgraph
      rw [if_neg (by simp [hadd, Except.isOk, Except.toBool])]
      exact hkept hgraph
    · rw [hcompile] at hgraph
      by_cases hname : p.name = name
      · subst hname
        rw [if_pos ⟨rfl, by rw [hadd]; rfl⟩]
        have htable : (g.add collapsing p).2.symbols = r.symbols := by rw [hadd]
        exact ⟨_, r, graph, hcompile, htable ▸ List.prefix_rfl, hgraph.trans (if_pos rfl)⟩
      · rw [if_neg fun hdefined => hname hdefined.1]
        exact hkept (hgraph.trans (if_neg hname))

end Defined

end Grammar

end Railroad
