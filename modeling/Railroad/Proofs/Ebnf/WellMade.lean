/-
# What a text is read as

The trees that are read from texts are fewer than the trees that there are (`Production.WellMade`).  A
sequence or an alternation has two items at least, since a single one stands for itself and none at
all is the empty word; and a name is not empty and does not go over the end of a line, since no token
does (`Spells.wellMade`).

A tree that is read is derived from tokens, so the rest is an induction on derivations.

One of these facts is used to compile what is read: nothing in it is an empty construct
(`Expr.WellMadeThroughout.firstEmpty?`), so compiling cannot fail.  The others say how far the trees
of texts are from all trees, for a reader who wonders what a grammar that was read can contain.  An
empty term is read as the empty word and not as a sequence without items, which is the case in which
the two differ.
-/
import Railroad.Proofs.Ebnf.Reader

namespace Railroad

open Build (Construct)

/-! ## 1. Well-made trees -/

/-- A name that is there and stays on its line. -/
def IsOneLine (name : String) : Prop := name ≠ "" ∧ '\n' ∉ name.toList

/-- An expression that can be written, whatever is inside it. -/
def Expr.WellMade : Expr → Prop
  | .literal leaf => IsOneLine leaf.name
  | .identifier leaf => IsOneLine leaf.name
  | .sequence items => 2 ≤ items.length
  | .alternation branches => 2 ≤ branches.length
  | _ => True

/-- **A production that can be written.**  Every production that is read from a text is one. -/
structure Production.WellMade (p : Production) : Prop where
  name : IsOneLine p.name
  expr : ∀ e ∈ p.expr.subexprs, e.WellMade

namespace Expr

/-- An expression that can be written with all that is inside it. -/
def WellMadeThroughout (e : Expr) : Prop := ∀ x ∈ e.subexprs, x.WellMade

theorem wellMade_node {c : Construct} {es : List Expr} (h : 2 ≤ es.length) :
    (node c es).WellMade := by
  cases c <;> exact h

/-- Parts that are joined make no sequence and no alternation of one item. -/
theorem wellMade_join {c : Construct} {es : List Expr} (hne : es ≠ [])
    (h : ∀ e ∈ es, e.WellMadeThroughout) : (join c es).WellMadeThroughout := by
  by_cases hlen : es.length = 1
  · obtain ⟨e, rfl⟩ := List.length_eq_one_iff.mp hlen
    exact h e (List.mem_singleton_self e)
  · have hpos := List.length_pos_iff.mpr hne
    rw [join_of_length_ne_one hlen, WellMadeThroughout, subexprs_node]
    refine List.forall_mem_cons.mpr ⟨wellMade_node (by omega), fun x hx => ?_⟩
    obtain ⟨e, he, hx⟩ := mem_subexprsAll.mp hx
    exact h e he x hx

/-- What can be written can be bracketed. -/
theorem wellMade_wrap {e : Expr} (h : e.WellMadeThroughout) :
    (Expr.optional e).WellMadeThroughout ∧ (Expr.repetition e).WellMadeThroughout ∧
      (Expr.oneOrMore e).WellMadeThroughout :=
  ⟨List.forall_mem_cons.mpr ⟨trivial, h⟩, List.forall_mem_cons.mpr ⟨trivial, h⟩,
    List.forall_mem_cons.mpr ⟨trivial, h⟩⟩

/-- Nothing is empty in what can be written. -/
theorem WellMadeThroughout.firstEmpty? {e : Expr} (h : e.WellMadeThroughout) :
    e.firstEmpty? = none := by
  refine (firstEmpty?_eq_none_iff e).mpr fun x hx => ⟨?_, ?_⟩
  · rintro rfl
    have hlen : 2 ≤ [].length := h _ hx
    cases hlen
  · rintro rfl
    have hlen : 2 ≤ [].length := h _ hx
    cases hlen

end Expr

namespace Ebnf

/-! ## 2. Tokens -/

/-- A token that can be written; a literal may be empty. -/
def Token.WellMade : Token → Prop
  | .name text => IsOneLine text
  | .angled text => IsOneLine text
  | .literal _ text => '\n' ∉ text.toList
  | _ => True

theorem isOneLine_ofList {cs : List Char} (hne : cs ≠ []) (h : ∀ c ∈ cs, c ≠ '\n') :
    IsOneLine (String.ofList cs) := by
  refine ⟨fun heq => hne ?_, fun hmem => ?_⟩
  · have hlist := congrArg String.toList heq
    rwa [String.toList_ofList] at hlist
  · rw [String.toList_ofList] at hmem
    exact h _ hmem rfl

/-- **A token that is spelled can be written.** -/
theorem Spells.wellMade {w : List Char} {t : Token} (h : Spells w (some t)) : t.WellMade := by
  cases h with
  | name start parts =>
    refine isOneLine_ofList (List.cons_ne_nil _ _) (List.forall_mem_cons.mpr ⟨?_, fun d hd => ?_⟩)
    · rintro rfl
      exact absurd start (by decide)
    · rintro rfl
      exact absurd (parts _ hd) (by decide)
  | angled filled inside => exact isOneLine_ofList filled fun c hc => (inside c hc).2
  | literal mark inside =>
    intro hmem
    rw [String.toList_ofList] at hmem
    exact (inside _ hmem).2 rfl
  | longDefine => trivial
  | mark h =>
    unfold Token.ofMark? at h
    split at h <;> cases h <;> trivial

theorem Splits.wellMade {s : List Char} {ts : List Token} (h : Splits s ts) :
    ∀ t ∈ ts, t.WellMade := by
  induction h with
  | done => exact List.forall_mem_nil _
  | skip _ _ ih => exact ih
  | token first _ _ ih => exact List.forall_mem_cons.mpr ⟨first.spells.wellMade, ih⟩

/-! ## 3. Derivations -/

theorem IsName.isOneLine {t : Token} {text : String} (h : IsName t text) (ht : t.WellMade) :
    IsOneLine text := by
  cases h <;> exact ht

theorem wellMade_termOf {es : List Expr} (h : ∀ e ∈ es, e.WellMadeThroughout) :
    (termOf es).WellMadeThroughout := by
  by_cases hes : es = []
  · subst hes
    exact List.forall_mem_singleton.mpr trivial
  · rw [termOf_of_ne_nil hes]
    exact Expr.wellMade_join hes h

mutual

/-- **A factor of well-made tokens is well-made.** -/
theorem IsFactor.wellMade : ∀ {ts : List Token} {e : Expr}, IsFactor ts e →
    (∀ t ∈ ts, t.WellMade) → e.WellMadeThroughout
  | _, _, .name h, hts =>
    List.forall_mem_singleton.mpr (h.isOneLine (hts _ List.mem_cons_self))
  | _, _, .literal quote hne, hts => by
    have hline : Token.WellMade (.literal quote _) := hts _ List.mem_cons_self
    exact List.forall_mem_singleton.mpr ⟨hne, hline⟩
  | _, _, .emptyLiteral _, _ => List.forall_mem_singleton.mpr trivial
  | _, _, .group h, hts => h.wellMade fun t ht => hts t (by simp [ht])
  | _, _, .option h, hts => (Expr.wellMade_wrap (h.wellMade fun t ht => hts t (by simp [ht]))).1
  | _, _, .repetition h, hts =>
    (Expr.wellMade_wrap (h.wellMade fun t ht => hts t (by simp [ht]))).2.1
  | _, _, .atLeastOnce h, hts =>
    (Expr.wellMade_wrap (h.wellMade fun t ht => hts t (by simp [ht]))).2.2

theorem IsFactors.wellMade : ∀ {ts : List Token} {es : List Expr}, IsFactors ts es →
    (∀ t ∈ ts, t.WellMade) → ∀ e ∈ es, e.WellMadeThroughout
  | _, _, .nil, _ => List.forall_mem_nil _
  | _, _, .cons first rest, hts => List.forall_mem_cons.mpr
    ⟨first.wellMade fun t ht => hts t (List.mem_append_left _ ht),
      rest.wellMade fun t ht => hts t (List.mem_append_right _ ht)⟩

/-- There is always a term, if only an empty one. -/
theorem IsTerms.wellMade : ∀ {ts : List Token} {terms : List Expr}, IsTerms ts terms →
    (∀ t ∈ ts, t.WellMade) → terms ≠ [] ∧ ∀ e ∈ terms, e.WellMadeThroughout
  | _, _, .last h, hts =>
    ⟨List.cons_ne_nil _ _, List.forall_mem_singleton.mpr (wellMade_termOf (h.wellMade hts))⟩
  | _, _, .cons first rest, hts => by
    have hfirst := first.wellMade fun t ht => hts t (List.mem_append_left _ ht)
    have hrest := rest.wellMade fun t ht =>
      hts t (List.mem_append_right _ (List.mem_cons_of_mem _ ht))
    exact ⟨List.cons_ne_nil _ _, List.forall_mem_cons.mpr ⟨wellMade_termOf hfirst, hrest.2⟩⟩

theorem IsExpression.wellMade : ∀ {ts : List Token} {e : Expr}, IsExpression ts e →
    (∀ t ∈ ts, t.WellMade) → e.WellMadeThroughout
  | _, _, .terms h, hts => Expr.wellMade_join (h.wellMade hts).1 (h.wellMade hts).2

end

theorem IsProduction.wellMade {ts : List Token} {p : Production} (h : IsProduction ts p)
    (hts : ∀ t ∈ ts, t.WellMade) : p.WellMade := by
  cases h with
  | intro h long body mark =>
    exact ⟨h.isOneLine (hts _ List.mem_cons_self), body.wellMade fun t ht => hts t (by simp [ht])⟩

theorem IsGrammar.wellMade {ts : List Token} {ps : List Production} (h : IsGrammar ts ps)
    (hts : ∀ t ∈ ts, t.WellMade) : ∀ p ∈ ps, p.WellMade := by
  induction h with
  | nil => exact List.forall_mem_nil _
  | cons first rest ih =>
    refine List.forall_mem_cons.mpr ⟨first.wellMade fun t ht => ?_, ih fun t ht => ?_⟩
    · exact hts t (List.mem_append_left _ ht)
    · exact hts t (List.mem_append_right _ ht)

/-- **What is read can be written.** -/
theorem wellMade_of_parse {text : String} {ps : List Production} (h : parse text = .ok ps) :
    ∀ p ∈ ps, p.WellMade := by
  obtain ⟨ts, hsplits, hgrammar⟩ := (parse_iff_derives text ps).mp h
  exact hgrammar.wellMade hsplits.wellMade

end Ebnf

end Railroad
