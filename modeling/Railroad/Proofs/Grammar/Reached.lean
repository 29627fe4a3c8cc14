/-
# Grammars in use

A grammar comes about by adding productions to the empty one, whether they can be compiled or not
(`Grammar.Reached`).  Each graph that it holds was compiled (`Reached.compiled`), and a diagram that
is drawn is the page of such a graph (`Grammar.render_ok`).

`Grammar.add_cases` says all that adding a production does, for success and for failure, and is the
only place where `Grammar.add` is opened.  Failure is not rare: names are numbered before anything
is compiled, so an attempt that fails still leaves a longer table behind, and the theorems about
sessions have to live with it.
-/
import Railroad.Diagram

namespace Railroad

/-- The settings that are in force unless others are given, with labels that are measured without
fonts. -/
def Settings.fixed {α : Type} [Scalar α] : Settings α :=
  { Settings.default with layout := { LayoutSettings.default with textMetrics := .fixed } }

namespace Grammar

open Build

/-! ## 1. Adding productions -/

/-- **A grammar that productions were added to.**  Whether reruns were looked for may have changed
on the way. -/
inductive Reached : Grammar → Prop where
  | empty : Reached {}
  | add {g : Grammar} (h : Reached g) (collapsing : Bool) (p : Production) :
    Reached (g.add collapsing p).2

/-- The registry that a production is compiled with, which has its name. -/
def naming (g : Grammar) (name : String) : Registry := (g.toRegistry.intern .nonterminal name).1

/-- The number of a name, a new one if it was not met before. -/
def number (g : Grammar) (name : String) : SymbolId := (g.symbols.intern .nonterminal name).2

/-- **What adding a production can do.** -/
theorem add_cases (g : Grammar) (collapsing : Bool) (p : Production) :
    (∃ e r, compile (g.naming p.name) collapsing p = (.error e, r) ∧
      g.add collapsing p = (.error e, { r with rules := g.rules })) ∨
    ∃ graph r, compile (g.naming p.name) collapsing p = (.ok graph, r) ∧
      g.add collapsing p = (.ok (g.number p.name),
        { r with rules := insertRule (g.number p.name) graph g.rules }) := by
  unfold add
  cases hcompile : compile (g.naming p.name) collapsing p with
  | mk result r =>
    have hcompile' : compile (g.toRegistry.intern .nonterminal p.name).1 collapsing p = (result, r) :=
      hcompile
    simp only [hcompile']
    cases result with
    | error e => exact .inl ⟨e, r, rfl, rfl⟩
    | ok graph => exact .inr ⟨graph, r, rfl, rfl⟩

theorem Reached.addAll (collapsing : Bool) : ∀ {ps : List Production} {g g' : Grammar},
    g.Reached → g.addAll collapsing ps = .ok g' → g'.Reached
  | [], _, _, h, heq => Except.ok.inj heq ▸ h
  | p :: ps, g, g', h, heq => by
    rw [Grammar.addAll] at heq
    have hadd := h.add collapsing p
    split at heq
    case h_1 => cases heq
    case h_2 hg =>
      rw [hg] at hadd
      exact hadd.addAll collapsing heq

theorem reached_ofProductions {collapsing : Bool} {ps : List Production} {g : Grammar}
    (h : ofProductions collapsing ps = .ok g) : g.Reached :=
  Reached.empty.addAll collapsing h

/-- **A grammar that is read** comes about by adding its productions. -/
theorem reached_ofSource {α : Type} {collapsing : Bool} {source : String} {g : Grammar}
    (h : ofSource (α := α) collapsing source = .ok g) : g.Reached := by
  unfold ofSource at h
  split at h
  case h_1 => cases h
  case h_2 ps _ =>
    cases hmade : ofProductions collapsing ps with
    | error e => rw [hmade] at h; cases h
    | ok made =>
      rw [hmade] at h
      exact Except.ok.inj h ▸ reached_ofProductions hmade

/-! ## 2. The graphs of a grammar -/

/-- A graph that was compiled, whatever had been compiled before. -/
def IsCompiled (graph : Graph) : Prop :=
  ∃ (registry : Build.Registry) (collapsing : Bool) (p : Production),
    (Build.compile registry collapsing p).1 = .ok graph

theorem mem_insertRule {symbol : SymbolId} {graph : Graph} {rule : SymbolId × Graph} :
    ∀ {rules : List (SymbolId × Graph)}, rule ∈ insertRule symbol graph rules →
    rule = (symbol, graph) ∨ rule ∈ rules
  | [], h => .inl (List.mem_singleton.mp h)
  | (other, old) :: rules, h => by
    rw [insertRule] at h
    split at h
    · exact (List.mem_cons.mp h).imp_right (List.mem_cons_of_mem _)
    · rcases List.mem_cons.mp h with rfl | h
      · exact .inr List.mem_cons_self
      · exact (mem_insertRule h).imp_right (List.mem_cons_of_mem _)

/-- **Every rule of a grammar was compiled.** -/
theorem Reached.compiled {g : Grammar} (h : g.Reached) : ∀ rule ∈ g.rules, IsCompiled rule.2 := by
  induction h with
  | empty => exact List.forall_mem_nil _
  | @add g _ collapsing p ih =>
    obtain ⟨e, r, -, hadd⟩ | ⟨graph, r, hcompile, hadd⟩ := add_cases g collapsing p <;> rw [hadd]
    · exact ih
    · intro rule hrule
      rcases mem_insertRule hrule with rfl | hrule
      · exact ⟨_, collapsing, p, congrArg Prod.fst hcompile⟩
      · exact ih rule hrule

theorem Reached.isCompiled_of_graph? {g : Grammar} (h : g.Reached) {name : String} {graph : Graph}
    (hgraph : g.graph? name = some graph) : IsCompiled graph := by
  obtain ⟨symbol, -, hlookup⟩ := Option.bind_eq_some_iff.mp hgraph
  obtain ⟨before, after, hrules, -⟩ := List.lookup_eq_some_iff.mp hlookup
  exact h.compiled (symbol, graph) (by simp [hrules])

/-! ## 3. Diagrams -/

theorem mapError_eq_ok {ε ε' β : Type} {f : ε → ε'} {x : Except ε β} {b : β}
    (h : x.mapError f = .ok b) : x = .ok b := by
  cases x with
  | error _ => cases h
  | ok _ => exact congrArg Except.ok (Except.ok.inj h)

theorem bind_eq_ok {ε β γ : Type} {x : Except ε β} {f : β → Except ε γ} {c : γ}
    (h : (x >>= f) = .ok c) : ∃ b, x = .ok b ∧ f b = .ok c := by
  cases x with
  | error _ => cases h
  | ok b => exact ⟨b, rfl, h⟩

variable {α : Type} [Scalar α]

/-- **A diagram that is drawn** is the page of the graph of that name. -/
theorem render_ok [Shaping α] [Color.Notation] {g : Grammar} {settings : Settings α} {name : String} {d : Diagram α}
    (h : g.render settings name = .ok d) : ∃ chart graph, settings.layout.validate = .ok () ∧
      g.graph? name = some graph ∧
      (graph.layout (.ofSymbols settings.layout g.symbols)).1 = .ok d.layout ∧
      d.marks = (g.canvas settings.layout chart).page d.layout.track := by
  obtain ⟨_, hvalid, h⟩ := bind_eq_ok h
  obtain ⟨chart, -, h⟩ := bind_eq_ok h
  obtain ⟨graph, hgraph, h⟩ := bind_eq_ok h
  obtain ⟨layout, hlayout, h⟩ := bind_eq_ok h
  rw [← Except.ok.inj h]
  refine ⟨chart, graph, mapError_eq_ok hvalid, ?_, mapError_eq_ok hlayout, rfl⟩
  rw [Grammar.graph] at hgraph
  split at hgraph
  case h_1 heq => rw [heq, Except.ok.inj hgraph]
  case h_2 => cases hgraph

end Grammar

end Railroad
