/-
# Building twice

What a production is compiled to depends on the registry it is compiled with in two ways only: a
symbol gets the number that it has there, and the nodes get the serial numbers that come next.  So
two registries make alike graphs of one expression (`compile_alike`).

Building is made of steps, and each of them is parallel: from alike drafts it comes to the same
fragment and to alike drafts again (`Parallel`).  Which symbol a number stands for is looked up in
the table as it is in the end.  That is possible because symbols are never taken off a table.

The relation between the two drafts is that they become equal when all numbers are looked up
(`Draft.Alike`, by `Node.renumber`).  So nothing has to be said about how the numbers of the two
registries go with each other, and a step that does not look at numbers keeps the relation by
rewriting.  The only step that gives out a number is the one that makes the node of a symbol.
-/
import Railroad.Proofs.Build.Steps
import Railroad.Proofs.Graph.Renumbered

namespace Railroad

namespace SymbolTable

/-- A symbol stays at its place when others are added at the end. -/
theorem entries_of_prefix {t t' : SymbolTable} (h : t.entries <+: t'.entries) {id : SymbolId}
    {entry : SymbolKind × String} (hat : t.entries[id]? = some entry) :
    t'.entries[id]? = some entry := by
  obtain ⟨hlt, rfl⟩ := List.getElem?_eq_some_iff.mp hat
  exact List.prefix_iff_getElem?.mp h id hlt

/-- One symbol has one number in another table, whichever table it is taken from. -/
theorem into_eq {t t' other : SymbolTable} {id id' : SymbolId}
    {entry : SymbolKind × String} (h : t.entries[id]? = some entry)
    (h' : t'.entries[id']? = some entry) : t.into other id = t'.into other id' := by
  rw [into, into, h, h']

end SymbolTable

namespace Build

/-! ## 1. Alike drafts -/

/-- **Two drafts have the same nodes** but for the numbers in them. -/
def Draft.Alike (σ σ' : SymbolId → SymbolId) (d d' : Draft) : Prop :=
  d.nodes.map (·.renumber σ) = d'.nodes.map (·.renumber σ')

namespace Draft.Alike

variable {σ σ' : SymbolId → SymbolId} {d d' : Draft}

theorem size_eq (h : Alike σ σ' d d') : d.nodes.size = d'.nodes.size := by
  simpa using congrArg Array.size h

/-- A node with the next serial number is added to each. -/
theorem push (h : Alike σ σ' d d') (node node' : Nat → Node)
    (hnode : (node d.nextSerial).renumber σ = (node' d'.nextSerial).renumber σ') :
    Alike σ σ' (d.push node).1 (d'.push node').1 := by
  unfold Alike at h ⊢
  simp only [Draft.push, Array.map_push, h, hnode]

/-- A change of links keeps drafts alike. -/
theorem modify (h : Alike σ σ' d d') (place : Nat) (change : Node → Node)
    (hchange : ∀ (σ : SymbolId → SymbolId) node, (change node).renumber σ = change (node.renumber σ)) :
    Alike σ σ' { d with nodes := d.nodes.modify place change }
      { d' with nodes := d'.nodes.modify place change } := by
  unfold Alike at h ⊢
  rw [Node.map_renumber_modify σ (hchange σ), Node.map_renumber_modify σ' (hchange σ'), h]

theorem linkAll (next : Option NodeId) (escapes : Bool) : ∀ (places : List NodeId) {d d' : Draft},
    Alike σ σ' d d' → Alike σ σ' (d.linkAll places next escapes) (d'.linkAll places next escapes)
  | [], _, _, h => h
  | place :: places, _, _, h =>
    linkAll next escapes places (h.modify place (·.link next escapes) fun _ _ => rfl)

end Draft.Alike

/-! ## 2. Parallel steps -/

/-- The draft that a step leaves behind, whatever comes of it. -/
def draftAfter {α : Type} (x : BuildM α) (d : Draft) : Draft :=
  match x d with
  | .ok _ d => d
  | .error _ d => d

/-- **A step is parallel:** it only advances a draft, and on alike drafts it comes to the same
result and to alike drafts.  Steps of building are parallel because they never ask what a number is.
-/
structure Parallel {α : Type} (x : BuildM α) : Prop where
  advances : ∀ d : Draft, d.Advances (draftAfter x d)
  alike : ∀ {t t' other : SymbolTable} {d d' e e' : Draft} {a a' : α},
    d.Alike (t.into other) (t'.into other) d' → x d = .ok a e → x d' = .ok a' e' →
    e.symbols.entries <+: t.entries → e'.symbols.entries <+: t'.entries →
    a = a' ∧ e.Alike (t.into other) (t'.into other) e'

namespace Parallel

variable {α β : Type} {x : BuildM α}

theorem grows_of_ok (h : Parallel x) {d e : Draft} {a : α} (hx : x d = .ok a e) :
    d.symbols.entries <+: e.symbols.entries := by
  have hadvances := h.advances d
  rw [draftAfter, hx] at hadvances
  exact hadvances.extends.symbols

theorem pure (a : α) : Parallel (Pure.pure a) where
  advances d := .refl d
  alike h hx hx' _ _ := by
    cases hx
    cases hx'
    exact ⟨rfl, h⟩

theorem throw (construct : Construct) : Parallel (MonadExcept.throw construct : BuildM α) where
  advances d := .refl d
  alike _ hx _ _ _ := by cases hx

theorem bind {f : α → BuildM β} (hx : Parallel x) (hf : ∀ a, Parallel (f a)) :
    Parallel (x >>= f) where
  advances d := by
    have hfirst := hx.advances d
    unfold draftAfter at hfirst ⊢
    show d.Advances (match EStateM.bind x f d with | .ok _ d => d | .error _ d => d)
    unfold EStateM.bind
    cases hd : x d with
    | error e d₁ =>
      rw [hd] at hfirst
      exact hfirst
    | ok a d₁ =>
      rw [hd] at hfirst
      exact hfirst.trans ((hf a).advances d₁)
  alike h hx₀ hx₀' ht ht' := by
    obtain ⟨a, d₁, hfirst, hsecond⟩ := bind_eq_ok hx₀
    obtain ⟨a', d₁', hfirst', hsecond'⟩ := bind_eq_ok hx₀'
    obtain ⟨rfl, h₁⟩ := hx.alike h hfirst hfirst' (((hf a).grows_of_ok hsecond).trans ht)
      (((hf a').grows_of_ok hsecond').trans ht')
    exact (hf a).alike h₁ hsecond hsecond' ht ht'

/-- A step that does not look at the symbols. -/
theorem perform {f : Draft → Draft × α} (hadvances : ∀ d : Draft, d.Advances (f d).1)
    (halike : ∀ {σ σ' : SymbolId → SymbolId} {d d' : Draft}, d.Alike σ σ' d' →
      (f d).2 = (f d').2 ∧ (f d).1.Alike σ σ' (f d').1) : Parallel (Build.perform f) where
  advances := hadvances
  alike h hx hx' _ _ := by
    obtain ⟨rfl, rfl⟩ := perform_eq_ok hx
    obtain ⟨rfl, rfl⟩ := perform_eq_ok hx'
    exact halike h

/-- The step that numbers a symbol. -/
theorem symbol (kind : SymbolKind) (leaf : Leaf) : Parallel (Build.perform (·.symbol kind leaf)) where
  advances d := .step (.symbol d kind leaf)
  alike {t t' other d d' e e' a a'} h hx hx' ht ht' := by
    obtain ⟨rfl, rfl⟩ := perform_eq_ok hx
    obtain ⟨rfl, rfl⟩ := perform_eq_ok hx'
    have hentry {t : SymbolTable} {d : Draft}
        (ht : (d.toRegistry.use kind leaf.name).1.symbols.entries <+: t.entries) :
        t.entries[(d.toRegistry.use kind leaf.name).2]? = some (kind, leaf.name) := by
      rw [Registry.symbols_use] at ht
      rw [Registry.number_use]
      exact SymbolTable.entries_of_prefix ht (d.symbols.entries_intern kind leaf.name)
    have hnumbered : Draft.Alike (t.into other) (t'.into other)
        { (d.toRegistry.use kind leaf.name).1 with nodes := d.nodes }
        { (d'.toRegistry.use kind leaf.name).1 with nodes := d'.nodes } := h
    refine ⟨?_, hnumbered.push (fun serial => { Made.symbolNode d kind leaf with serial })
      (fun serial => { Made.symbolNode d' kind leaf with serial }) ?_⟩
    · show Fragment.mk d.nodes.size d.nodes.size [] = Fragment.mk d'.nodes.size d'.nodes.size []
      rw [h.size_eq]
    · simp only [Node.renumber, Made.symbolNode, Option.map_some,
        SymbolTable.into_eq (hentry ht) (hentry ht')]

/-- A step that makes the node of a construct, which is no symbol, and links others with it. -/
theorem pushing (node : Nat → Node) (links : NodeId → Draft → Draft) (result : NodeId → α)
    (hplain : ∀ n, (node n).serial = n ∧ (node n).kind.isSymbol = false ∧
      (node n).symbol = none ∧ (node n).style = {})
    (hnode : ∀ (σ σ' : SymbolId → SymbolId) (n n' : Nat),
      (node n).renumber σ = (node n').renumber σ')
    (hadvances : ∀ (id : NodeId) (d : Draft), d.Advances (links id d))
    (hlinks : ∀ {σ σ' : SymbolId → SymbolId} {d d' : Draft} (id : NodeId), d.Alike σ σ' d' →
      (links id d).Alike σ σ' (links id d')) :
    Parallel (Build.perform fun d => (links d.nodes.size (d.push node).1, result d.nodes.size)) := by
  refine perform (fun d => (Draft.Advances.step (.construct d node hplain)).trans (hadvances _ _))
    fun {σ σ' d d'} h => ?_
  rw [h.size_eq]
  exact ⟨rfl, hlinks _ (h.push node node (hnode σ σ' _ _))⟩

theorem epsilon : Parallel (Build.perform Draft.epsilon) :=
  pushing (fun serial => { serial, kind := .epsilon }) (fun _ d => d)
    (fun id => Fragment.mk id id []) (fun _ => ⟨rfl, rfl, rfl, rfl⟩) (fun _ _ _ _ => rfl)
    (fun _ d => .refl d) fun _ h => h

theorem sequence (first second : Fragment) :
    Parallel (Build.perform (·.sequence first second)) := by
  refine perform (fun d => ?_) fun h => ⟨rfl, ?_⟩
  · have hlink : d.Advances (d.link first.tail (some second.entry) false) :=
      .step (.relink d first.tail (·.link (some second.entry) false) fun _ => ⟨rfl, rfl, rfl, rfl⟩)
    exact hlink.trans (.linkAll _ _ _ _)
  exact .linkAll _ _ _ (h.modify first.tail (·.link (some second.entry) false) fun _ _ => rfl)

theorem firstBranch (inner : Fragment) : Parallel (Build.perform (·.firstBranch inner)) :=
  pushing (fun serial => { serial, kind := .alternative, sub := some inner.entry }) (fun _ d => d)
    (fun id => Fragment.mk id id inner.openEnds) (fun _ => ⟨rfl, rfl, rfl, rfl⟩) (fun _ _ _ _ => rfl)
    (fun _ d => .refl d) fun _ h => h

theorem branch (group : Fragment) (above : NodeId) (inner : Fragment) :
    Parallel (Build.perform (·.branch group above inner)) :=
  pushing (fun serial => { serial, kind := .alternative, sub := some inner.entry })
    (fun id d => { d with nodes := d.nodes.modify above fun node => { node with down := some id } })
    (fun id => ({ group with exits := group.exits ++ id :: inner.openEnds }, id))
    (fun _ => ⟨rfl, rfl, rfl, rfl⟩) (fun _ _ _ _ => rfl)
    (fun _ d => .step (.relink d above _ fun _ => ⟨rfl, rfl, rfl, rfl⟩))
    fun _ h => h.modify above _ fun _ _ => rfl

theorem optional (inner : Fragment) : Parallel (Build.perform (·.optional inner)) :=
  pushing (fun serial => { serial, kind := .optional, sub := some inner.entry }) (fun _ d => d)
    (fun id => Fragment.mk id id inner.openEnds) (fun _ => ⟨rfl, rfl, rfl, rfl⟩) (fun _ _ _ _ => rfl)
    (fun _ d => .refl d) fun _ h => h

theorem iteration (inner : Fragment) : Parallel (Build.perform (·.iteration inner)) :=
  pushing (fun serial => { serial, kind := .iteration, sub := some inner.entry })
    (fun id d => d.linkAll inner.openEnds (some id) true) (fun id => Fragment.mk id id [])
    (fun _ => ⟨rfl, rfl, rfl, rfl⟩) (fun _ _ _ _ => rfl) (fun _ d => .linkAll _ _ _ d)
    fun _ h => .linkAll _ _ _ h

theorem rerun (body : Fragment) (between : Option Fragment) :
    Parallel (Build.perform (·.rerun body between)) :=
  pushing (fun serial =>
      { serial, kind := .rerun, sub := some body.entry, between := between.map (·.entry) })
    (fun id d => (d.linkAll body.openEnds (some id) true).linkAll
      ((between.map Fragment.openEnds).getD []) (some id) true)
    (fun id => Fragment.mk id id []) (fun _ => ⟨rfl, rfl, rfl, rfl⟩) (fun _ _ _ _ => rfl)
    (fun _ d => (Draft.Advances.linkAll _ _ _ d).trans (.linkAll _ _ _ _))
    fun _ h => .linkAll _ _ _ (.linkAll _ _ _ h)

end Parallel

/-! ## 3. Building a plan -/

mutual

/-- **Building is parallel,** by the closure of parallel steps under putting them together. -/
theorem build_parallel : ∀ plan : Plan, Parallel (build plan)
  | .symbol kind leaf => by
    rw [build]
    exact .symbol kind leaf
  | .epsilon => by
    rw [build]
    exact .epsilon
  | .sequence items => by
    rw [build]
    exact buildSequence_parallel items
  | .choice [] => by
    rw [build]
    exact .throw _
  | .choice (first :: others) => by
    rw [build]
    exact (build_parallel first).bind fun inner => (Parallel.firstBranch inner).bind fun group =>
      buildBranches_parallel others group group.entry
  | .optional inner => by
    rw [build]
    exact (build_parallel inner).bind Parallel.optional
  | .iteration inner => by
    rw [build]
    exact (build_parallel inner).bind Parallel.iteration
  | .rerun body [] => by
    rw [build]
    exact (buildSequence_parallel body).bind fun body => (Parallel.pure none).bind fun between =>
      .rerun body between
  | .rerun body (item :: rest) => by
    rw [build]
    refine (buildSequence_parallel body).bind fun body => Parallel.bind ?_ fun between =>
      .rerun body between
    exact (buildSequence_parallel (item :: rest)).bind fun between => .pure (some between)

theorem buildSequence_parallel : ∀ items : List Plan, Parallel (buildSequence items)
  | [] => by
    rw [buildSequence]
    exact .throw _
  | first :: rest => by
    rw [buildSequence]
    exact (build_parallel first).bind fun before => buildBehind_parallel rest before

theorem buildBehind_parallel : ∀ (rest : List Plan) (before : Fragment),
    Parallel (buildBehind before rest)
  | [], before => by
    rw [buildBehind]
    exact .pure before
  | item :: rest, before => by
    rw [buildBehind]
    exact (build_parallel item).bind fun item => (Parallel.sequence before item).bind fun both =>
      buildBehind_parallel rest both

theorem buildBranches_parallel : ∀ (others : List Plan) (group : Fragment) (above : NodeId),
    Parallel (buildBranches group above others)
  | [], group, _ => by
    rw [buildBranches]
    exact .pure group
  | item :: rest, group, above => by
    rw [buildBranches]
    exact (build_parallel item).bind fun item => (Parallel.branch group above item).bind fun below =>
      buildBranches_parallel rest below.1 below.2

end

/-- **What compiling does to the registry, and the nodes that it makes,** are those of a draft that has
advanced from one without nodes, also if it fails. -/
theorem compile_advances (r : Registry) (collapsing : Bool) (p : Production) :
    ∃ d : Draft, Draft.Advances { r with } d ∧ d.toRegistry = (compile r collapsing p).2 ∧
      ∀ g, (compile r collapsing p).1 = .ok g → g.nodes = d.nodes := by
  have hadvances := (build_parallel (Plan.ofExpr collapsing p.expr)).advances { r with }
  unfold draftAfter at hadvances
  unfold compile
  split
  case h_1 construct d hbuild =>
    rw [hbuild] at hadvances
    exact ⟨d, hadvances, rfl, fun g hg => by cases hg⟩
  case h_2 f d hbuild =>
    rw [hbuild] at hadvances
    refine ⟨d.linkAll f.exits none true, hadvances.trans (.linkAll _ _ _ d), ?_⟩
    dsimp only
    split
    · exact ⟨Draft.toRegistry_linkAll _ _ _ d, fun g hg => by cases hg; rfl⟩
    · exact ⟨Draft.toRegistry_linkAll _ _ _ d, fun g hg => by cases hg⟩

/-- **Compiling takes nothing off the registry,** also if it fails. -/
theorem compile_extends (r : Registry) (collapsing : Bool) (p : Production) :
    r.Extends (compile r collapsing p).2 := by
  obtain ⟨d, hadvances, hregistry, -⟩ := compile_advances r collapsing p
  rw [← hregistry]
  exact hadvances.extends

/-- **Two registries make alike graphs of one expression.**  The numbers of the symbols are those
in the tables as they were left, or in tables that more symbols were added to. -/
theorem compile_alike {r r' s s' : Registry} {collapsing : Bool} {p p' : Production} {g g' : Graph}
    {t t' : SymbolTable} (hexpr : p.expr = p'.expr) (h : compile r collapsing p = (.ok g, s))
    (h' : compile r' collapsing p' = (.ok g', s')) (ht : s.symbols.entries <+: t.entries)
    (ht' : s'.symbols.entries <+: t'.entries) (other : SymbolTable) :
    Graph.Alike (t.into other) (t'.into other) g g' := by
  obtain ⟨f, d, hbuild, rfl, rfl⟩ := compile_eq_finish h
  obtain ⟨f', d', hbuild', rfl, rfl⟩ := compile_eq_finish h'
  rw [← hexpr] at hbuild'
  have hstart : Draft.Alike (t.into other) (t'.into other) { r with } { r' with } := by
    rw [Draft.Alike, Array.map_empty, Array.map_empty]
  obtain ⟨rfl, halike⟩ := (build_parallel _).alike hstart hbuild hbuild' ht ht'
  have hnodes := Draft.Alike.linkAll none true f.exits halike
  unfold Graph.Alike Graph.renumber Draft.finish
  rw [show _ = _ from hnodes]

end Build

end Railroad
