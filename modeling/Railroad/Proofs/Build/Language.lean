/-
# The language of a graph

A production stands for a set of words over its terminals and nonterminals, and so does the graph
it is compiled to, read level by level: a symbol is a word of one letter, an option may be passed
by, a loop is run through any number of times, an alternation offers its branches.

Both are the same (`compile_language`), whether or not reruns are looked for.  Where a repetition
has swallowed the items before it the words are split at the same places; where it has swallowed
the items after it they are split elsewhere (`kstar_slide`).

The proof goes from the expression to its plan and from there to the graph.  A plan has a tree, and
a tree has words (`Track.language`); that the plan has the words of the expression is an induction
on the expression with the cut of a sequence as its one hard case (`Cuts.language_eq`).  The second
step is short, since the graph has the same tree (`Graph.HasTree`), with nodes in the place of
leaves.

Words are over symbols of both kinds.  A nonterminal is a letter like a terminal: what the
production of that name derives is not part of the language of this one.
-/
import Mathlib
import Railroad.Proofs.Build.Faults

open scoped Computability

namespace Railroad

/-- Sets of words over the symbols of a grammar, a symbol being its kind and its name. -/
abbrev Words := Language (SymbolKind × String)

/-! ## 1. Words of an expression -/

namespace Expr

mutual

/-- **The words of an expression.**  A graph does not tell the two repetitions apart, and neither
do the words. -/
def language : Expr → Words
  | .literal leaf => {[(.terminal, leaf.name)]}
  | .identifier leaf => {[(.nonterminal, leaf.name)]}
  | .empty => 1
  | .sequence items => product items
  | .alternation branches => union branches
  | .optional inner => 1 + inner.language
  | .repetition inner => inner.language∗
  | .oneOrMore inner => inner.language∗

/-- The words of some expressions, one behind the other. -/
def product : List Expr → Words
  | [] => 1
  | item :: rest => item.language * product rest

/-- The words of any of some expressions. -/
def union : List Expr → Words
  | [] => 0
  | branch :: others => branch.language + union others

end

theorem product_append (es es' : List Expr) : product (es ++ es') = product es * product es' := by
  induction es with
  | nil => exact (one_mul _).symm
  | cons e es ih => rw [List.cons_append, product, product, ih, mul_assoc]

theorem product_eq_prod (es : List Expr) : product es = (es.map language).prod := by
  induction es with
  | nil => rfl
  | cons e es ih => rw [product, List.map_cons, List.prod_cons, ih]

theorem union_eq_sum (es : List Expr) : union es = (es.map language).sum := by
  induction es with
  | nil => rfl
  | cons e es ih => rw [union, List.map_cons, List.sum_cons, ih]

/-- An expression has the words of its items. -/
theorem product_items (e : Expr) : product e.items = e.language := by
  unfold items
  split
  · rw [language]
  · rw [product, product, mul_one]

mutual

/-- Styles make no difference to the words. -/
theorem language_of_beq : ∀ {a b : Expr}, Expr.beq a b = true → a.language = b.language
  | .literal _, b, h | .identifier _, b, h => by
    cases b <;> simp [Expr.beq] at h
    have hname := (Bool.and_eq_true _ _).mp h
    rw [language, language, eq_of_beq hname.1]
  | .empty, b, h => by
    cases b <;> simp [Expr.beq] at h
    rfl
  | .sequence _, b, h => by
    cases b <;> simp only [Expr.beq, Bool.false_eq_true] at h
    rw [language, language, (words_of_beqList h).1]
  | .alternation _, b, h => by
    cases b <;> simp only [Expr.beq, Bool.false_eq_true] at h
    rw [language, language, (words_of_beqList h).2]
  | .optional _, b, h | .repetition _, b, h | .oneOrMore _, b, h => by
    cases b <;> simp [Expr.beq] at h
    rw [language, language, language_of_beq h]

theorem words_of_beqList : ∀ {as bs : List Expr}, Expr.beqList as bs = true →
    product as = product bs ∧ union as = union bs
  | [], [], _ => ⟨rfl, rfl⟩
  | a :: as, b :: bs, h => by
    rw [Expr.beqList, Bool.and_eq_true] at h
    obtain ⟨hproduct, hunion⟩ := words_of_beqList h.2
    rw [product, product, union, union, language_of_beq h.1, hproduct, hunion]
    exact ⟨rfl, rfl⟩

end

theorem product_of_alike {as bs : List Expr} (h : Build.Alike as bs) : product as = product bs := by
  induction h with
  | nil => rfl
  | cons hab _ ih => rw [product, product, language_of_beq hab, ih]

end Expr

/-! ## 2. Words of a graph -/

namespace Track

variable {β γ : Type}

mutual

/-- **The words of a level,** given those of its symbols.  A place where a row may end is no
letter. -/
def language (letter : β → Words) : Track β → Words
  | .stop => 1
  | .symbol b rest => letter b * rest.language letter
  | .epsilon _ rest => 1 * rest.language letter
  | .wrap _ rest => rest.language letter
  | .optional _ body rest => (1 + body.language letter) * rest.language letter
  | .iteration _ body rest => (body.language letter)∗ * rest.language letter
  | .rerun _ body between rest =>
    body.language letter * (between.language letter * body.language letter)∗ * rest.language letter
  | .choice branches rest => branchLanguage letter branches * rest.language letter

/-- The words of any of some branches. -/
def branchLanguage (letter : β → Words) : Branches β → Words
  | .last _ body => body.language letter
  | .more _ body others => body.language letter + branchLanguage letter others

end

mutual

theorem language_map (letter : γ → Words) (f : β → γ) : ∀ t : Track β,
    (t.map f).language letter = t.language (letter ∘ f)
  | .stop => rfl
  | .symbol b rest => by rw [map, language, language, language_map letter f rest]; rfl
  | .epsilon _ rest => by rw [map, language, language, language_map letter f rest]
  | .wrap _ rest => by rw [map, language, language, language_map letter f rest]
  | .optional _ body rest | .iteration _ body rest => by
    rw [map, language, language, language_map letter f body, language_map letter f rest]
  | .rerun _ body between rest => by
    rw [map, language, language, language_map letter f body, language_map letter f between,
      language_map letter f rest]
  | .choice branches rest => by
    rw [map, language, language, branchLanguage_map letter f branches, language_map letter f rest]

theorem branchLanguage_map (letter : γ → Words) (f : β → γ) : ∀ bs : Branches β,
    branchLanguage letter (mapBranches f bs) = branchLanguage (letter ∘ f) bs
  | .last _ body => language_map letter f body
  | .more _ body others => by
    rw [mapBranches, branchLanguage, branchLanguage, language_map letter f body,
      branchLanguage_map letter f others]

end

/-- One level behind the other has the words of both, one behind the other. -/
theorem language_append (letter : β → Words) (s : Track β) : ∀ t : Track β,
    (t.append s).language letter = t.language letter * s.language letter
  | .stop => (one_mul _).symm
  | .wrap _ rest => by rw [append, language, language, language_append letter s rest]
  | .symbol _ rest | .epsilon _ rest | .optional _ _ rest | .iteration _ _ rest | .choice _ rest => by
    rw [append, language, language, language_append letter s rest, mul_assoc]
  | .rerun _ _ _ rest => by
    rw [append, language, language, language_append letter s rest, ← mul_assoc]

theorem branchLanguage_snoc (letter : β → Words) (c : β) (t : Track β) : ∀ bs : Branches β,
    branchLanguage letter (snoc bs c t) = branchLanguage letter bs + t.language letter
  | .last _ _ => rfl
  | .more _ body others => by
    rw [snoc, branchLanguage, branchLanguage, branchLanguage_snoc letter c t others, add_assoc]

end Track

/-- What a node shows, as a word of one letter; what shows nothing has no words. -/
def shownWords : Option (SymbolKind × Leaf) → Words
  | some (kind, leaf) => {[(kind, leaf.name)]}
  | none => 0

/-- **The words of a graph,** its symbols being those of a table.  It is read off the tree that the
links make, so a link that led elsewhere would change it. -/
def Graph.language (g : Graph) (symbols : SymbolTable) : Words :=
  g.track.language fun spot => shownWords (spot.node.leaf? symbols)

namespace Build

/-! ## 3. Cutting a sequence keeps its words -/

/-- Runs that alternate can be cut before either of the two.  This is what makes a repetition with
the items after it the same as one with the items before. -/
theorem kstar_slide (x y : Words) : (x * y)∗ * x = x * (y * x)∗ := by
  apply le_antisymm
  · refine kstar_mul_le ?_ ?_
    · calc x = x * 1 := (mul_one x).symm
        _ ≤ x * (y * x)∗ := mul_le_mul_right one_le_kstar x
    · calc x * y * (x * (y * x)∗) = x * (y * x * (y * x)∗) := by simp only [mul_assoc]
        _ ≤ x * (y * x)∗ := mul_le_mul_right mul_kstar_le_kstar x
  · refine mul_kstar_le ?_ ?_
    · calc x = 1 * x := (one_mul x).symm
        _ ≤ (x * y)∗ * x := mul_le_mul_left one_le_kstar x
    · calc (x * y)∗ * x * (y * x) = (x * y)∗ * (x * y) * x := by simp only [mul_assoc]
        _ ≤ (x * y)∗ * x := mul_le_mul_left kstar_mul_le_kstar x

/-- The words of a segment. -/
def Segment.language : Segment → Words
  | .single item => item.language
  | .rerun body between =>
    Expr.product body * (Expr.product between * Expr.product body)∗

/-- **The segments of a sequence have the words of its items,** by the two kinds of reruns in the
cut. -/
theorem Cuts.language_eq {segments : List Segment} {items : List Expr} (h : Cuts segments items) :
    (segments.map Segment.language).prod = Expr.product items := by
  induction h with
  | nil => rfl
  | single item _ ih => rw [List.map_cons, List.prod_cons, ih, Segment.language, Expr.product]
  | @behind _ _ inner body between _ _ hi ha _ ih =>
    have hinner : inner.language = Expr.product between * Expr.product body := by
      rw [← Expr.product_items, hi, Expr.product_append, Expr.product_of_alike ha]
    rw [List.map_cons, List.prod_cons, ih, Segment.language, Expr.product_append, Expr.product,
      Expr.language, hinner, mul_assoc]
  | @ahead _ _ inner body between _ _ hi ha _ ih =>
    have hinner : inner.language = Expr.product body * Expr.product between := by
      rw [← Expr.product_items, hi, Expr.product_append, Expr.product_of_alike ha]
    rw [List.map_cons, List.prod_cons, ih, Segment.language, Expr.product, Expr.product_append,
      Expr.language, hinner, ← mul_assoc, kstar_slide]

/-! ## 4. The words of a plan -/

/-- The words of a plan. -/
def Plan.language (plan : Plan) : Words := plan.track.language shownWords

theorem language_trackAll (plans : List Plan) :
    (trackAll plans).language shownWords = (plans.map Plan.language).prod := by
  induction plans with
  | nil => rfl
  | cons plan rest ih =>
    rw [trackAll, Track.language_append, ih, List.map_cons, List.prod_cons, Plan.language]

theorem branchLanguage_addBranches (plans : List Plan) :
    ∀ bs : Branches (Option (SymbolKind × Leaf)),
    Track.branchLanguage shownWords (addBranches bs plans)
      = Track.branchLanguage shownWords bs + (plans.map Plan.language).sum := by
  induction plans with
  | nil =>
    intro bs
    exact (add_zero _).symm
  | cons plan rest ih =>
    intro bs
    rw [addBranches, ih, Track.branchLanguage_snoc, List.map_cons, List.sum_cons, add_assoc,
      Plan.language]

namespace Plan

variable {collapsing : Bool}

/-- Expressions and their plans, item by item. -/
theorem map_language_ofExpr {es : List Expr}
    (h : ∀ e ∈ es, (ofExpr collapsing e).language = e.language) :
    (es.map (ofExpr collapsing)).map language = es.map Expr.language := by
  rw [List.map_map]
  exact List.map_congr_left h

theorem language_segment {segment : Segment}
    (h : ∀ e ∈ segment.exprs, (ofExpr collapsing e).language = e.language) :
    (segment.plan collapsing).language = segment.language := by
  cases segment with
  | single item => exact h item List.mem_cons_self
  | rerun body between =>
    have hbody := map_language_ofExpr fun e he => h e (List.mem_append_left _ he)
    have hbetween := map_language_ofExpr fun e he => h e (List.mem_append_right _ he)
    rw [Segment.plan, language, track, Track.language, language_trackAll, language_trackAll, hbody,
      hbetween, Track.language, mul_one, Segment.language, Expr.product_eq_prod,
      Expr.product_eq_prod]

/-- **The plan of an expression has its words,** if nothing in it is empty. -/
theorem language_ofExpr (collapsing : Bool) (e : Expr) (hempty : e.firstEmpty? = none) :
    (ofExpr collapsing e).language = e.language := by
  match e with
  | .literal _ | .identifier _ =>
    rw [ofExpr, language, track, Track.language, Track.language, mul_one, shownWords, Expr.language]
  | .empty =>
    rw [ofExpr, language, track, Track.language, Track.language, mul_one, Expr.language]
  | .optional inner =>
    have hinner : (ofExpr collapsing inner).language = inner.language :=
      language_ofExpr collapsing inner (Expr.firstEmpty?_optional inner ▸ hempty)
    rw [language] at hinner
    rw [ofExpr, language, track, Track.language, Track.language, mul_one, Expr.language, hinner]
  | .repetition inner =>
    have hinner : (ofExpr collapsing inner).language = inner.language :=
      language_ofExpr collapsing inner (Expr.firstEmpty?_repetition inner ▸ hempty)
    rw [language] at hinner
    rw [ofExpr, language, track, Track.language, Track.language, mul_one, Expr.language, hinner]
  | .oneOrMore inner =>
    have hinner : (ofExpr collapsing inner).language = inner.language :=
      language_ofExpr collapsing inner (Expr.firstEmpty?_oneOrMore inner ▸ hempty)
    rw [language] at hinner
    rw [ofExpr, language, track, Track.language, Track.language, mul_one, Expr.language, hinner]
  | .alternation [] => exact absurd hempty (by decide)
  | .alternation (first :: others) =>
    rw [Expr.firstEmpty?_alternation (by simp), Expr.firstEmptyOf?_eq_none_iff] at hempty
    have hbranches := map_language_ofExpr fun branch hbranch =>
      language_ofExpr collapsing branch (hempty branch hbranch)
    rw [ofExpr_alternation, List.map_cons, language, track, Track.language,
      branchLanguage_addBranches, Track.branchLanguage, Track.language, mul_one, Expr.language, Expr.union_eq_sum, ← hbranches]
    rfl
  | .sequence [] => exact absurd hempty (by decide)
  | .sequence (first :: rest) =>
    rw [Expr.firstEmpty?_sequence (by simp)] at hempty
    rw [ofExpr_sequence, language, track, language_trackAll, Expr.language]
    cases collapsing with
    | false =>
      rw [Expr.firstEmptyOf?_eq_none_iff] at hempty
      have hitems := map_language_ofExpr fun item hitem =>
        language_ofExpr false item (hempty item hitem)
      rw [if_neg Bool.false_ne_true, hitems, Expr.product_eq_prod]
    | true =>
      have hcuts := collapse_cuts (first :: rest)
      rw [← hcuts.firstEmptyOf?_eq, Expr.firstEmptyOf?_eq_none_iff] at hempty
      have hsegments : ∀ segment ∈ collapse (first :: rest),
          (segment.plan true).language = segment.language := by
        intro segment hsegment
        refine language_segment fun x hx => ?_
        exact language_ofExpr true x (hempty x (List.mem_flatMap.mpr ⟨segment, hsegment, hx⟩))
      rw [if_pos rfl, List.map_map, ← hcuts.language_eq]
      exact congrArg List.prod (List.map_congr_left hsegments)
termination_by sizeOf e
decreasing_by
  · simp only [Expr.optional.sizeOf_spec]; omega
  · simp only [Expr.repetition.sizeOf_spec]; omega
  · simp only [Expr.oneOrMore.sizeOf_spec]; omega
  · have := List.sizeOf_lt_of_mem hbranch; simp only [Expr.alternation.sizeOf_spec]; omega
  · have := List.sizeOf_lt_of_mem hitem; simp only [Expr.sequence.sizeOf_spec]; omega
  · exact sizeOf_lt_of_mem_collapse hsegment hx

end Plan

/-! ## 5. The words of a compiled graph -/

/-- A graph has the words of what its nodes show. -/
theorem language_of_hasTree {g : Graph} {t : Track NodeId} (h : g.HasTree Eq t)
    (symbols : SymbolTable) : g.language symbols =
      (t.map fun id => (g.arena id).bind (·.leaf? symbols)).language shownWords := by
  have hspots : t.map (fun id => (g.spotAt id).node.leaf? symbols)
      = t.map fun id => (g.arena id).bind (·.leaf? symbols) := by
    refine Track.map_congr t fun id hid => ?_
    obtain ⟨node, hn⟩ := h.node_of_mem hid
    rw [Graph.spotAt_node hn, hn, Option.bind_some]
  rw [Graph.language, h.similar.track_eq, ← hspots, Track.language_map, Track.language_map]
  rfl

/-- **A compiled graph has exactly the words of the production,** whether or not reruns are looked
for, if nothing in the production is empty.

That there is a graph at all is part of what is said.  The registry may hold anything when the
production is compiled, since its symbols are only ever added to; and the words are compared as
sets, so a rerun has to allow just what the loop and the items before it allowed. -/
theorem compile_language (r : Registry) (collapsing : Bool) (p : Production)
    (h : ∀ e ∈ p.expr.subexprs, e ≠ .sequence [] ∧ e ≠ .alternation []) :
    ∃ g, (compile r collapsing p).1 = .ok g ∧
      g.language (compile r collapsing p).2.symbols = p.expr.language := by
  have hempty := (Expr.firstEmpty?_eq_none_iff p.expr).mpr h
  obtain ⟨g, t, hg, htree, hshown⟩ := compile_eq_ok r collapsing hempty
  refine ⟨g, hg, ?_⟩
  rw [language_of_hasTree htree, hshown]
  exact Plan.language_ofExpr collapsing p.expr hempty

/-- The production `p = { "a" b } "a" [ "c" ]`. -/
def aheadProduction : Production where
  name := "p"
  expr := .sequence [.repetition (.sequence [.literal ⟨"a", {}⟩, .identifier ⟨"b", {}⟩]),
    .literal ⟨"a", {}⟩, .optional (.literal ⟨"c", {}⟩)]

/-- Its graph is a rerun of `"a"` over `b` and then an option, and yet has the words of the
production. -/
theorem compile_language_ahead :
    (∀ e ∈ aheadProduction.expr.subexprs, e ≠ .sequence [] ∧ e ≠ .alternation []) ∧
    ∃ g, (compile {} true aheadProduction).1 = .ok g ∧
      g.language ⟨[(.terminal, "a"), (.nonterminal, "b"), (.terminal, "c")]⟩
        = (({[(.terminal, "a")]} * ({[(.nonterminal, "b")]} * 1))∗ *
          ({[(.terminal, "a")]} * ((1 + {[(.terminal, "c")]}) * 1)) : Words) := by
  have hempty : ∀ e ∈ aheadProduction.expr.subexprs, e ≠ .sequence [] ∧ e ≠ .alternation [] := by
    simp [aheadProduction, Expr.subexprs, Expr.subexprsAll]
  have hsymbols : (compile {} true aheadProduction).2.symbols
      = ⟨[(.terminal, "a"), (.nonterminal, "b"), (.terminal, "c")]⟩ := by cbv
  obtain ⟨g, hg, hlanguage⟩ := compile_language {} true aheadProduction hempty
  rw [hsymbols] at hlanguage
  exact ⟨hempty, g, hg, hlanguage⟩

end Build
end Railroad
