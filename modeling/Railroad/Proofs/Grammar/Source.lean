/-
# Grammars from texts

A production that is read can be compiled, whatever was compiled before it: the reader makes no empty
sequence and no empty alternation (`Ebnf.wellMade_of_parse`), and there is nothing else that could be
wrong with one (`compile_eq_ok`).  So a text that can be read has a grammar (`ofSource_reads`), which
is the one after the session that defines its productions in order, and its names are those of the
productions.

Reading and compiling fail for different reasons, and only the first can happen to a text.
`ofSource` has both kinds of failure in its type; what is proved is that the second never comes out
of it, for any text and whether or not reruns are looked for.  The session of a text has one attempt
for each of its productions, in order, so what is known of sessions (the order of the names, the
last definition of each) holds of texts without being proved again.
-/
import Railroad.Proofs.Ebnf.WellMade
import Railroad.Proofs.Grammar.LastDefinition

namespace Railroad

namespace Grammar

open Build

variable {g : Grammar} {ps : List Production}

/-! ## 1. Productions that can be compiled -/

/-- The session that defines some productions in order. -/
def attempts (collapsing : Bool) (ps : List Production) : List Attempt := ps.map (⟨collapsing, ·⟩)

/-- **Productions without empty constructs are all added.** -/
theorem addAll_eq_ok (collapsing : Bool) (h : ∀ p ∈ ps, p.expr.firstEmpty? = none) :
    g.addAll collapsing ps = .ok (g.after (attempts collapsing ps)) := by
  induction ps generalizing g with
  | nil => rfl
  | cons p ps ih =>
    obtain ⟨hp, hps⟩ := List.forall_mem_cons.mp h
    obtain ⟨graph, -, hok, -⟩ := compile_eq_ok (g.naming p.name) collapsing hp
    obtain ⟨e, r, hcompile, -⟩ | ⟨graph, r, -, hadd⟩ := add_cases g collapsing p
    · rw [hcompile] at hok
      cases hok
    · have hstep : g.step ⟨collapsing, p⟩ = (g.add collapsing p).2 := rfl
      rw [addAll, hadd, attempts, List.map_cons, after, List.foldl_cons, hstep, hadd]
      exact ih hps

/-- They define their own names, in order. -/
theorem map_fst_definitions (collapsing : Bool) (h : ∀ p ∈ ps, p.expr.firstEmpty? = none) :
    (g.definitions (attempts collapsing ps)).map Prod.fst = ps.map (·.name) := by
  induction ps generalizing g with
  | nil => rfl
  | cons p ps ih =>
    obtain ⟨hp, hps⟩ := List.forall_mem_cons.mp h
    obtain ⟨graph, -, hok, -⟩ := compile_eq_ok (g.naming p.name) collapsing hp
    have hdefined : g.defined? ⟨collapsing, p⟩ = some (p.name, graph) := by
      rw [defined?, hok]
      rfl
    rw [attempts, List.map_cons, definitions, hdefined, List.map_append, List.map_cons]
    exact congrArg (p.name :: ·) (ih hps)

/-! ## 2. Texts -/

variable {α : Type} {source : String}

/-- **A text that is read has a grammar.** -/
theorem ofSource_eq_ok (collapsing : Bool) (h : Ebnf.parse source = .ok ps) :
    ofSource (α := α) collapsing source = .ok (after {} (attempts collapsing ps)) := by
  have hall := addAll_eq_ok (g := {}) collapsing fun p hp =>
    Expr.WellMadeThroughout.firstEmpty? (Ebnf.wellMade_of_parse h p hp).expr
  rw [ofSource, h]
  show (addAll collapsing {} ps).mapError _ = _
  rw [hall]
  rfl

/-- **The names of a text** are those of its productions, in the order of their first definitions. -/
theorem names_of_parse (collapsing : Bool) (h : Ebnf.parse source = .ok ps) :
    (after {} (attempts collapsing ps)).names = (ps.map (·.name)).eraseDups := by
  rw [names_after, map_fst_definitions collapsing fun p hp =>
    Expr.WellMadeThroughout.firstEmpty? (Ebnf.wellMade_of_parse h p hp).expr]

/-- **A name has a graph exactly if there is a production of that name.** -/
theorem graph?_eq_none_iff {collapsing : Bool} (h : Ebnf.parse source = .ok ps)
    (hg : ofSource (α := α) collapsing source = .ok g) (name : String) :
    g.graph? name = none ↔ ∀ p ∈ ps, p.name ≠ name := by
  rw [ofSource_eq_ok collapsing h] at hg
  obtain rfl := Except.ok.inj hg
  have hgraph : name ∈ (after {} (attempts collapsing ps)).names ↔ _ :=
    mem_names_iff (Reached.empty.after (attempts collapsing ps)).wellFormed
  rw [names_of_parse collapsing h, List.mem_eraseDups, List.mem_map] at hgraph
  rw [Option.eq_none_iff_forall_ne_some, ← not_exists, ← hgraph]
  simp

/-- **Nothing fails once a text is read.**  A text has a grammar, or it cannot be read; whatever was read
can be compiled.  And what is read can be written: each sequence and each alternation has two items at
least, and names are not empty and do not go over the end of a line. -/
theorem ofSource_reads (collapsing : Bool) (source : String) :
    ((∃ g, ofSource (α := α) collapsing source = .ok g) ∨
      ∃ e, ofSource (α := α) collapsing source = .error (.parse e source)) ∧
    ∀ ps, Ebnf.parse source = .ok ps →
      (∃ g, ofSource (α := α) collapsing source = .ok g) ∧ ∀ p ∈ ps, p.WellMade := by
  refine ⟨?_, fun ps hps => ⟨⟨_, ofSource_eq_ok collapsing hps⟩, Ebnf.wellMade_of_parse hps⟩⟩
  cases hparse : Ebnf.parse source with
  | error e =>
    refine .inr ⟨e, ?_⟩
    rw [ofSource, hparse]
  | ok ps => exact .inl ⟨_, ofSource_eq_ok collapsing hparse⟩

end Grammar

end Railroad
