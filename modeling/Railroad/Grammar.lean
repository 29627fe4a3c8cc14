/-
# Grammars

A grammar is a registry of symbols together with the graph of each production.  Productions are
kept in the order in which their names were first defined; defining a name again puts the new
graph in the place of the old one.

Productions are added one by one, and each attempt may fail.  A failed one leaves the rules as they
were, but not the registry: the name of the production is known from then on, and so are the symbols
and serial numbers that were given out before the failure.  None of this is taken back, since
numbers must never be given out twice.

A nonterminal of the registry need not be defined.  It may have been referred to only, or only have
been defined in vain; then it has a number and no graph (`Grammar.graph?`).

What a whole session of additions makes of a grammar, with failures in between, is found in
`Railroad.Proofs.Grammar.Sessions` and `Railroad.Proofs.Grammar.LastDefinition`.
-/
import Railroad.Build.Compile
import Railroad.Graph.Printer
import Railroad.Graph.Track

namespace Railroad

open Build

/-- **A compiled grammar.**  The rules are keyed by symbol; `add` keeps the keys different.  That
rules are for nonterminals and serial numbers differ is not in the type; it holds of every grammar
that productions were added to (`Grammar.WellFormed`). -/
structure Grammar extends Registry where
  rules : List (SymbolId × Graph) := []

namespace Grammar

/-- A rule in the place of an earlier one for the same symbol, or else at the end. -/
def insertRule (symbol : SymbolId) (graph : Graph) :
    List (SymbolId × Graph) → List (SymbolId × Graph)
  | [] => [(symbol, graph)]
  | (other, old) :: rules =>
    if other == symbol then (symbol, graph) :: rules
    else (other, old) :: insertRule symbol graph rules

/-- **Adds a production,** `add_production`.  The name is registered before the right-hand side is
compiled.  If that fails, the rules stay as they were; the symbols it named and the serial numbers
it took are used up all the same.  A rule for a symbol that has one already takes its place in the
order of rules. -/
def add (g : Grammar) (collapsing : Bool) (p : Production) : Except BuildError SymbolId × Grammar :=
  let (registry, symbol) := g.toRegistry.intern .nonterminal p.name
  match compile registry collapsing p with
  | (.error e, registry) => (.error e, { registry with rules := g.rules })
  | (.ok graph, registry) => (.ok symbol, { registry with rules := insertRule symbol graph g.rules })

/-- Adds productions one by one, up to the first that fails.  What was added before is then given
up with the rest. -/
def addAll (collapsing : Bool) : Grammar → List Production → Except BuildError Grammar
  | g, [] => .ok g
  | g, p :: ps =>
    match g.add collapsing p with
    | (.error e, _) => .error e
    | (.ok _, g) => g.addAll collapsing ps

/-- **The grammar of some productions,** `from_productions`.  It ends with the first production that
has no graph. -/
def ofProductions (collapsing : Bool) (ps : List Production) : Except BuildError Grammar :=
  Grammar.addAll collapsing {} ps

/-- The symbols that are defined, in the order of their first definition. -/
def nonterminals (g : Grammar) : List SymbolId := g.rules.map Prod.fst

/-- The names that are defined, `nonterminal_names`, in the order of their first definition. -/
def names (g : Grammar) : List String := g.nonterminals.filterMap g.symbols.name?

/-- The graph of a name, if it is defined.  A terminal of the same name does not count. -/
def graph? (g : Grammar) (name : String) : Option Graph := do
  g.rules.lookup (← g.symbols.lookup .nonterminal name)

end Grammar

end Railroad
