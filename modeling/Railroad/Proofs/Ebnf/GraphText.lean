/-
# The text of a graph is read again

A graph is written in the notation of its production, though not in the same words.  What is written is
also the text of a plain expression (`Picture.written`), so it is read like the text of any other, and
what is read has the words of the production (`compile_text_rereads`).

That the expression is plain is seen from the production.  Every leaf that a graph shows is a leaf of the
production (`Plan.Shows.mem_subexprs`): cutting a sequence moves leaves, but it makes none up.

Three things meet here.  The tree of a compiled graph is the plan of its production (`compile_reads`
and the lemmas below it), so each of its nodes shows a leaf of the production.  The text of a graph
is the text of the expression that its tree spells (`Picture.written`), whose leaves are these.  And
the text of a plain expression is read as that expression up to nesting (`readsTerms_text`).  None
of the three knows of the other two.

The two texts differ where reruns are drawn: a loop whose body stands before it on the line is
written with that body inside the braces once more, so what is read is another expression than the
production, and only its words are the same.  A layout may have switched wraps on and given every
node a box; the text looks at neither, which is why it may be taken after any layouts by any rulers.
-/
import Railroad.Proofs.Build.Reading
import Railroad.Proofs.Build.Symbols
import Railroad.Proofs.Build.Written
import Railroad.Proofs.Layout.Integrity

namespace Railroad

/-! ## 1. The leaves of a plan -/

/-- What is inside the items of an expression is inside the expression, wherever they are split. -/
theorem Expr.subexprs_of_items {e : Expr} {front back : List Expr} (h : e.items = front ++ back) :
    subexprsAll front ⊆ e.subexprs ∧ subexprsAll back ⊆ e.subexprs := by
  have hitems : subexprsAll e.items ⊆ e.subexprs := by
    unfold items
    split
    · exact List.subset_cons_self _ _
    · rw [subexprsAll, subexprsAll, List.append_nil]
      exact List.Subset.refl _
  rwa [h, subexprsAll_append, List.append_subset] at hitems

namespace Build

theorem items_trackAll (plans : List Plan) :
    (trackAll plans).items = plans.flatMap (·.track.items) := by
  induction plans with
  | nil => rfl
  | cons plan rest ih => rw [trackAll, Track.items_append, ih, List.flatMap_cons]

theorem branchItems_addBranches (plans : List Plan) :
    ∀ bs : Branches (Option (SymbolKind × Leaf)), Track.branchItems (addBranches bs plans)
      = Track.branchItems bs ++ plans.flatMap (·.track.items) := by
  induction plans with
  | nil => exact fun bs => (List.append_nil _).symm
  | cons plan rest ih =>
    intro bs
    rw [addBranches, ih, Track.branchItems_snoc, List.append_assoc, List.flatMap_cons]

/-- **What is inside the segments of a sequence is inside its items.**  What a rerun has between is in
the repetition that it was made from. -/
theorem Cuts.subexprs_subset {segments : List Segment} {items : List Expr} (h : Cuts segments items) :
    Expr.subexprsAll (segments.flatMap Segment.exprs) ⊆ Expr.subexprsAll items := by
  induction h with
  | nil => exact List.Subset.refl _
  | single item _ ih =>
    rw [List.flatMap_cons, Segment.exprs, Expr.subexprsAll_append]
    intro x hx
    simp only [Expr.subexprsAll, List.append_nil, List.mem_append] at hx ⊢
    exact hx.imp_right (ih ·)
  | @behind _ _ inner body between _ _ hi _ _ ih =>
    obtain ⟨hbetween, -⟩ := Expr.subexprs_of_items hi
    rw [List.flatMap_cons, Segment.exprs]
    intro x hx
    simp only [Expr.subexprsAll_append, Expr.subexprsAll, Expr.subexprs, List.mem_append,
      List.mem_cons] at hx ⊢
    rcases hx with (hx | hx) | hx
    · exact .inl hx
    · exact .inr (.inl (.inr (hbetween hx)))
    · exact .inr (.inr (ih hx))
  | @ahead _ _ inner body between _ _ hi _ _ ih =>
    obtain ⟨-, hbetween⟩ := Expr.subexprs_of_items hi
    rw [List.flatMap_cons, Segment.exprs]
    intro x hx
    simp only [Expr.subexprsAll_append, Expr.subexprsAll, Expr.subexprs, List.mem_append,
      List.mem_cons] at hx ⊢
    rcases hx with (hx | hx) | hx
    · exact .inr (.inl hx)
    · exact .inl (.inr (hbetween hx))
    · exact .inr (.inr (ih hx))

namespace Plan

variable {collapsing : Bool} {shown : Option (SymbolKind × Leaf)}

/-- A leaf of the plan is shown so. -/
def Shows (plan : Plan) (shown : Option (SymbolKind × Leaf)) : Prop :=
  Item.symbol shown ∈ plan.track.items

theorem shows_symbol {kind : SymbolKind} {leaf : Leaf} :
    (Plan.symbol kind leaf).Shows shown ↔ shown = some (kind, leaf) := by
  simp [Shows, track, Track.items]

theorem not_shows_epsilon : ¬ Plan.epsilon.Shows shown := by
  simp [Shows, track, Track.items]

theorem shows_optional {inner : Plan} : (Plan.optional inner).Shows shown ↔ inner.Shows shown := by
  simp [Shows, track, Track.items]

theorem shows_iteration {inner : Plan} : (Plan.iteration inner).Shows shown ↔ inner.Shows shown := by
  simp [Shows, track, Track.items]

theorem shows_sequence {items : List Plan} :
    (Plan.sequence items).Shows shown ↔ ∃ item ∈ items, item.Shows shown := by
  simp [Shows, track, items_trackAll]

theorem shows_rerun {body between : List Plan} :
    (Plan.rerun body between).Shows shown ↔ ∃ item ∈ body ++ between, item.Shows shown := by
  simp [Shows, track, Track.items, items_trackAll, or_and_right, exists_or]

theorem shows_choice {branches : List Plan} :
    (Plan.choice branches).Shows shown ↔ ∃ branch ∈ branches, branch.Shows shown := by
  cases branches with
  | nil => simp [Shows, track, Track.items]
  | cons first others =>
    simp [Shows, track, Track.items, branchItems_addBranches, Track.branchItems]

theorem shows_map {es : List Expr} : (∃ plan ∈ es.map (ofExpr collapsing), plan.Shows shown) ↔
    ∃ e ∈ es, (ofExpr collapsing e).Shows shown := by
  simp

theorem shows_segment {segment : Segment} : (segment.plan collapsing).Shows shown ↔
    ∃ e ∈ segment.exprs, (ofExpr collapsing e).Shows shown := by
  cases segment with
  | single item => simp [Segment.plan, Segment.exprs]
  | rerun body between => rw [Segment.plan, shows_rerun, ← List.map_append, shows_map, Segment.exprs]

/-- **Every leaf in the plan of an expression is a leaf of the expression.** -/
theorem Shows.mem_subexprs {collapsing : Bool} {e : Expr} (h : (ofExpr collapsing e).Shows shown) :
    leafExpr shown ∈ e.subexprs := by
  match e with
  | .literal leaf | .identifier leaf =>
    rw [ofExpr, shows_symbol] at h
    rw [h]
    exact List.mem_singleton_self _
  | .empty =>
    rw [ofExpr] at h
    exact absurd h not_shows_epsilon
  | .optional inner =>
    rw [ofExpr, shows_optional] at h
    exact List.mem_cons_of_mem _ h.mem_subexprs
  | .repetition inner | .oneOrMore inner =>
    rw [ofExpr, shows_iteration] at h
    exact List.mem_cons_of_mem _ h.mem_subexprs
  | .alternation branches =>
    rw [ofExpr_alternation, shows_choice, shows_map] at h
    obtain ⟨branch, hbranch, h⟩ := h
    exact List.mem_cons_of_mem _ (Expr.mem_subexprsAll.mpr ⟨branch, hbranch, h.mem_subexprs⟩)
  | .sequence items =>
    rw [ofExpr_sequence, shows_sequence] at h
    refine List.mem_cons_of_mem _ ?_
    cases collapsing with
    | false =>
      obtain ⟨item, hitem, h⟩ := shows_map.mp h
      exact Expr.mem_subexprsAll.mpr ⟨item, hitem, Shows.mem_subexprs h⟩
    | true =>
      obtain ⟨plan, hplan, h⟩ := h
      obtain ⟨segment, hsegment, rfl⟩ := List.mem_map.mp hplan
      obtain ⟨x, hx, h⟩ := shows_segment.mp h
      exact (collapse_cuts items).subexprs_subset (Expr.mem_subexprsAll.mpr
        ⟨x, List.mem_flatMap.mpr ⟨segment, hsegment, hx⟩, Shows.mem_subexprs h⟩)
termination_by sizeOf e
decreasing_by
  · simp only [Expr.optional.sizeOf_spec]; omega
  · simp only [Expr.repetition.sizeOf_spec]; omega
  · simp only [Expr.oneOrMore.sizeOf_spec]; omega
  · have := List.sizeOf_lt_of_mem hbranch; simp only [Expr.alternation.sizeOf_spec]; omega
  · have := List.sizeOf_lt_of_mem hitem; simp only [Expr.sequence.sizeOf_spec]; omega
  · exact sizeOf_lt_of_mem_collapse hsegment hx

end Plan

end Build

/-! ## 2. The text of a compiled graph -/

/-- A text that is read as one production. -/
theorem Ebnf.ReadsGrammar.parse_eq {s : String} {p : Production} (h : ReadsGrammar s [p]) :
    ∃ e, parse s = .ok [⟨p.name, e⟩] ∧ e.flatten = p.expr.flatten := by
  obtain ⟨ts, qs, hscans, hgrammar, hreads⟩ := h
  cases hreads with
  | @cons _ q _ _ hread hrest =>
    cases hrest
    obtain ⟨name, e⟩ := q
    obtain rfl : name = p.name := hread.name
    exact ⟨e, parse_eq_ok.mpr (parseChars_eq_ok.mpr ⟨ts, hscans.scans, hgrammar⟩),
      hread.expr.flatten⟩

/-- An expression that can be written in the notation, in whatever style: names need no angle brackets,
literals hold something and need no escapes, and no sequence and no alternation is empty. -/
def Expr.IsWritable : Expr → Prop
  | .literal leaf => leaf.name ≠ "" ∧ Text.quote leaf.name = "\"" ++ leaf.name ++ "\""
  | .identifier leaf => Ebnf.isPlainName leaf.name = true
  | .sequence items => items ≠ []
  | .alternation branches => branches ≠ []
  | _ => True

/-- A node with a symbol of its kind is written as what it shows, also with a table that has got more
symbols. -/
theorem Node.Labelled.text_eq {t symbols : SymbolTable} {node : Node} (h : node.Labelled t)
    (hsymbols : t.entries <+: symbols.entries) : node.text symbols = shownText (node.leaf? t) := by
  unfold Labelled at h
  unfold Node.text Node.leaf? Node.name
  cases hk : node.kind with
  | terminal | nonterminal =>
    rw [hk] at h
    obtain ⟨id, hid, hkind⟩ := h
    obtain ⟨⟨kind, name⟩, hentry, rfl⟩ := Option.map_eq_some_iff.mp hkind
    have hname : symbols.name? id = some name := by
      rw [SymbolTable.name?, SymbolTable.entries_of_prefix hsymbols hentry]
      rfl
    rw [hid, Option.bind_some, Option.bind_some, hname, hentry]
    rfl
  | _ =>
    rw [hk] at h
    have hsymbol : node.symbol = none := h
    rw [hsymbol]
    rfl

namespace Build

theorem isPlain_writtenLeaf {shown : Option (SymbolKind × Leaf)} (h : (leafExpr shown).IsWritable) :
    (writtenLeaf shown).IsPlain := by
  rcases shown with _ | ⟨_ | _, leaf⟩
  · exact absurd rfl h
  · exact ⟨rfl, h⟩
  · exact ⟨rfl, h⟩

end Build

/-- A node of a graph can be written if the leaf that it shows can. -/
theorem Item.Proper.writable {β : Type} {kind : β → NodeKind} {shown : β → Option (SymbolKind × Leaf)}
    {item : Item β} (h : item.Proper kind)
    (hleaf : ∀ b, item = .symbol b → (Build.writtenLeaf (shown b)).IsPlain) :
    (item.map shown).Writable := by
  cases item with
  | symbol b => exact hleaf b rfl
  | epsilon _ | wrap _ => exact trivial
  | optional _ _ | iteration _ _ => exact h.2.map
  | rerun _ _ between => exact ⟨h.2.1.map, Track.wrapFree_map shown between h.2.2⟩
  | choice branches =>
    change ∀ level ∈ (Track.mapBranches shown branches).levels, level.2.IsOwned
    rw [Track.levels_mapBranches, List.forall_mem_map]
    exact fun level hlevel => (h level hlevel).2.map

namespace Build

/-- A compiled graph has the text of what is shown, also with a table that has got more symbols. -/
theorem text_of_hasTree {r : Registry} {collapsing : Bool} {p : Production} {g : Graph}
    {t : Track NodeId} (h : (compile r collapsing p).1 = .ok g) (htree : g.HasTree Eq t)
    {symbols : SymbolTable}
    (hsymbols : (compile r collapsing p).2.symbols.entries <+: symbols.entries) :
    g.text symbols = " ".intercalate
      ((t.map fun id => (g.arena id).bind (·.leaf? (compile r collapsing p).2.symbols)).texts
        shownText) := by
  have hsame : t.map (fun id => (g.spotAt id).node.text symbols) = t.map fun id =>
      shownText ((g.arena id).bind (·.leaf? (compile r collapsing p).2.symbols)) := by
    refine Track.map_congr t fun id hid => ?_
    obtain ⟨node, hn⟩ := htree.node_of_mem hid
    have hlabelled := labelled_of_compile h node (Array.mem_of_getElem? hn)
    rw [Graph.spotAt_node hn, hn, Option.bind_some, hlabelled.text_eq hsymbols]
  have htexts := congrArg (Track.texts id) hsame
  rw [Track.texts_map, Track.texts_map] at htexts
  rw [Graph.text, htree.similar.track_eq, Track.text, Track.texts_map, Track.texts_map]
  exact congrArg _ htexts

/-- A compiled graph has a level with nodes and without wraps. -/
theorem isOwned_of_hasTree {collapsing : Bool} {e : Expr} {g : Graph} {t : Track NodeId}
    (htree : g.HasTree Eq t) {shown : NodeId → Option (SymbolKind × Leaf)}
    (hshown : t.map shown = (Plan.ofExpr collapsing e).track) : t.IsOwned := by
  refine ⟨?_, Track.wrapFree_of_map t (hshown ▸ Plan.track_wrapFree (Plan.ofExpr collapsing e))⟩
  have hlinked := htree.linked
  cases t with
  | stop => exact absurd (congrArg Exit.next hlinked) (by nofun)
  | _ => rfl

/-- The nodes of a compiled graph can be written if the leaves of its production can. -/
theorem writable_of_hasTree {collapsing : Bool} {e : Expr} (h : ∀ x ∈ e.subexprs, x.IsWritable)
    {g : Graph} {t : Track NodeId} (htree : g.HasTree Eq t) {shown : NodeId → Option (SymbolKind × Leaf)}
    (hshown : t.map shown = (Plan.ofExpr collapsing e).track) :
    ∀ item ∈ (t.map shown).items, item.Writable := by
  have hfree := (isOwned_of_hasTree htree hshown).2
  have hproper := htree.similar.linked.items_proper fun level hlevel =>
    Track.wrapFree_of_mem_inner t hfree hlevel
  rw [Track.items_map, List.forall_mem_map]
  intro item hitem
  refine (hproper item hitem).writable fun b hb => ?_
  have hleaf : (Plan.ofExpr collapsing e).Shows (shown b) := by
    rw [Plan.Shows, ← hshown, Track.items_map]
    exact List.mem_map.mpr ⟨item, hitem, by rw [hb]; rfl⟩
  exact isPlain_writtenLeaf (h _ hleaf.mem_subexprs)

/-- **The text of a graph stands for the words of its production.**  A production without empty
constructs, in which names need no angle brackets and literals no escapes, has a graph, whether or
not reruns are looked for.  Behind a name and a definition sign, the text of that graph is read as
one production of this name, which has the words of the production that was compiled.  Layouts make
no difference to that, whatever their settings, however they measured labels and whatever came of
them.

The table may have got more symbols since, as it does when other productions are compiled. -/
theorem compile_text_rereads (r : Registry) (collapsing : Bool) (p : Production)
    (h : ∀ e ∈ p.expr.subexprs, e.IsWritable) {name : String}
    (hname : Ebnf.isPlainName name = true) {symbols : SymbolTable}
    (hsymbols : (compile r collapsing p).2.symbols.entries <+: symbols.entries) :
    ∃ g e, (compile r collapsing p).1 = .ok g ∧ e.language = p.expr.language ∧
      ∀ rulers : List (Ruler Float32),
        Ebnf.parse (name ++ " = " ++ (g.afterLayouts rulers).text symbols ++ " .")
          = .ok [⟨name, e⟩] := by
  have hempty : p.expr.firstEmpty? = none := by
    rw [Expr.firstEmpty?_eq_none_iff]
    intro e he
    have hwritable := h e he
    constructor
    · rintro rfl
      exact absurd rfl hwritable
    · rintro rfl
      exact absurd rfl hwritable
  obtain ⟨g, t, hok, htree, hshown⟩ := compile_eq_ok r collapsing hempty
  have hwritable := writable_of_hasTree h htree hshown
  have howned : (Plan.ofExpr collapsing p.expr).track.IsOwned :=
    hshown ▸ (isOwned_of_hasTree htree hshown).map
  have htext := text_of_hasTree hok htree hsymbols
  rw [hshown] at hwritable htext
  let written : Production := ⟨name, .sequence (Picture.written (Plan.ofExpr collapsing p.expr).track)⟩
  have hplain : written.IsPlain := ⟨hname, Expr.plain_sequence (Picture.written_ne_nil howned)
    (Picture.plain_written _ hwritable)⟩
  have hwrittenText : written.text = name ++ " = " ++ g.text symbols ++ " ." := by
    rw [htext, (Picture.sameText_written _ hwritable).text, ← Expr.text_sequence]
    rfl
  have hwrittenWords : written.expr.language = p.expr.language := by
    rw [Expr.language, Picture.product_written]
    exact Plan.language_ofExpr collapsing p.expr hempty
  obtain ⟨e, hparse, hflatten⟩ := (Ebnf.readsGrammar_text hplain).parse_eq
  have hwords : e.language = p.expr.language := by
    rw [← e.language_flatten, hflatten, Expr.language_flatten, hwrittenWords]
  refine ⟨g, e, hok, hwords, fun rulers => ?_⟩
  obtain ⟨t, hbare⟩ := bare_of_compile hok
  obtain ⟨w, hw⟩ := (Wrapped.refl g t).afterLayouts hbare rulers
  rw [hw.text_eq hbare, ← hwrittenText]
  exact hparse

/-- The production `p = "a" { ( "b" | { c }+ ) "a" }`, with a font of its own for the `c`. -/
def choiceBetween : Production where
  name := "p"
  expr := .sequence
    [.literal ⟨"a", {}⟩,
      .repetition (.sequence
        [.alternation [.literal ⟨"b", {}⟩, .oneOrMore (.identifier ⟨"c", { font := some {} }⟩)],
          .literal ⟨"a", {}⟩])]

/-- Its graph, a rerun at the place 6 over an alternation at the places 2 and 5. -/
def choiceBetweenGraph : Graph where
  nodes := #[
    { serial := 0, kind := .terminal, symbol := some 0, next := some 6, escapes := true },
    { serial := 1, kind := .terminal, symbol := some 1, next := some 6, escapes := true },
    { serial := 2, kind := .alternative, next := some 6, escapes := true, down := some 5,
      sub := some 1 },
    { serial := 3, kind := .nonterminal, symbol := some 2, style := { font := some {} },
      next := some 4, escapes := true },
    { serial := 4, kind := .iteration, next := some 6, escapes := true, sub := some 3 },
    { serial := 5, kind := .alternative, next := some 6, escapes := true, sub := some 4 },
    { serial := 6, kind := .rerun, sub := some 0, between := some 2 }]
  entry := 6

/-- The way back over the choice is written in braces with the body again, and all of it is read again,
also after layouts. -/
theorem compile_text_rereads_choiceBetween :
    (∀ e ∈ choiceBetween.expr.subexprs, e.IsWritable) ∧ Ebnf.isPlainName "p" = true ∧
    (compile {} true choiceBetween).1 = .ok choiceBetweenGraph ∧
    choiceBetweenGraph.text (compile {} true choiceBetween).2.symbols
      = "\"a\" \x7b ( \"b\" | \x7b c \x7d ) \"a\" \x7d" ∧
    ∃ e, e.language = choiceBetween.expr.language ∧
      ∀ rulers : List (Ruler Float32),
        Ebnf.parse ("p" ++ " = " ++ (choiceBetweenGraph.afterLayouts rulers).text
          (compile {} true choiceBetween).2.symbols ++ " .")
          = .ok [⟨"p", e⟩] := by
  have hwritable : ∀ e ∈ choiceBetween.expr.subexprs, e.IsWritable := by
    simp [choiceBetween, Expr.subexprs, Expr.subexprsAll, Expr.IsWritable]
    decide
  have hname : Ebnf.isPlainName "p" = true := by decide
  have hgraph : (compile {} true choiceBetween).1 = .ok choiceBetweenGraph := by cbv
  have hsymbols : (compile {} true choiceBetween).2.symbols
      = ⟨[(.terminal, "a"), (.terminal, "b"), (.nonterminal, "c")]⟩ := by cbv
  have htext : choiceBetweenGraph.text ⟨[(.terminal, "a"), (.terminal, "b"), (.nonterminal, "c")]⟩
      = "\"a\" \x7b ( \"b\" | \x7b c \x7d ) \"a\" \x7d" := by decide +kernel
  obtain ⟨g, e, hg, hrest⟩ := compile_text_rereads {} true choiceBetween hwritable hname
    (List.prefix_refl _)
  obtain rfl := Except.ok.inj (hg.symm.trans hgraph)
  exact ⟨hwritable, hname, hgraph, hsymbols ▸ htext, e, hrest⟩

end Build

end Railroad
