/-
# Symbols

A grammar speaks of terminals and nonterminals by name.  A symbol table numbers them: a symbol
gets the next number when it is first met and keeps it.  A terminal and a nonterminal of the
same name are two symbols, since they are looked up by kind and name together.

The table only ever grows at its end (`intern`).  So a graph that was compiled with an early table
means the same with every later one, and nothing in it has to be renumbered when more productions
are added; that is what carries the results on sessions in `Railroad.Proofs.Grammar`.

A number is a bare place in the list.  Which numbers a graph may hold is not part of its type: it is
proved of the graphs that the compiler makes that their symbols are in the table they were compiled
with.
-/

namespace Railroad

/-- The two kinds of symbols: a literal token, or a reference to a production. -/
inductive SymbolKind where
  | terminal | nonterminal
deriving Repr, DecidableEq

/-- A kind in words, as it is shown. -/
def SymbolKind.text : SymbolKind → String
  | .terminal => "terminal"
  | .nonterminal => "nonterminal"

/-- The number of a symbol in its table, counted from zero in the order in which the symbols were
first met. -/
abbrev SymbolId := Nat

/-- **The symbols of a grammar,** each at the place of its number.  The list is kept free of
repetitions by `intern`, the only way to add to it.  The same name may be a terminal and a
nonterminal, and has two numbers then. -/
structure SymbolTable where
  entries : List (SymbolKind × String) := []
deriving Repr, DecidableEq

namespace SymbolTable

/-- How many symbols there are. -/
def size (t : SymbolTable) : Nat := t.entries.length

/-- No symbol is there. -/
def isEmpty (t : SymbolTable) : Bool := t.entries.isEmpty

/-- The number of a symbol, if it was met before: the first place where its kind and name
stand. -/
def lookup (t : SymbolTable) (kind : SymbolKind) (name : String) : Option SymbolId :=
  t.entries.idxOf? (kind, name)

/-- **The number of a symbol,** a new one if it was not met before.  The table comes back with the
symbol in it, so whatever is asked of it afterwards sees the number.  Numbers are given out in order
and never given back. -/
def intern (t : SymbolTable) (kind : SymbolKind) (name : String) : SymbolTable × SymbolId :=
  match t.lookup kind name with
  | some id => (t, id)
  | none => (⟨t.entries ++ [(kind, name)]⟩, t.size)

/-- The kind of a symbol, if the number was given to one. -/
def kind? (t : SymbolTable) (id : SymbolId) : Option SymbolKind := t.entries[id]?.map Prod.fst

/-- The name of a symbol, if the number was given to one. -/
def name? (t : SymbolTable) (id : SymbolId) : Option String := t.entries[id]?.map Prod.snd

/-- A symbol is found under the number that was given to it. -/
theorem lookup_intern (t : SymbolTable) (kind : SymbolKind) (name : String) :
    (t.intern kind name).1.lookup kind name = some (t.intern kind name).2 := by
  unfold intern
  split
  · assumption
  · rename_i h
    simp only [lookup, List.idxOf?, List.findIdx?_eq_none_iff] at h
    simp only [lookup, List.idxOf?, List.findIdx?_append, size]
    rw [List.findIdx?_eq_none_iff.mpr h]
    simp [List.findIdx?_cons]

/-- A symbol stands at the place of its number. -/
theorem entries_lookup {t : SymbolTable} {kind : SymbolKind} {name : String} {id : SymbolId}
    (h : t.lookup kind name = some id) : t.entries[id]? = some (kind, name) := by
  rw [lookup, List.idxOf?, List.findIdx?_eq_some_iff_getElem] at h
  obtain ⟨hlt, heq, -⟩ := h
  rw [List.getElem?_eq_getElem hlt, eq_of_beq heq]

end SymbolTable

end Railroad
