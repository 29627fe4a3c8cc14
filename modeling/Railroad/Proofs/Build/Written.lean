/-
# A tree written out

`Picture.written` writes what is on a level in the notation: as items of a sequence, with nothing for a
wrap, and with a rerun as its body and a repetition of what is between and the body again.  Words and
text are those of the level (`product_written`, `sameText_written`), whatever is nested in what, for a
level further inside is a sequence of its own and an alternation is an item.

What is written is plain if the leaves are and no level that a node owns is empty (`plain_written`).  It
need not be flat, but needless nesting makes no difference to the words (`Expr.language_flatten`).

Two texts that are the same to the printers may come from lists of different lengths, since a rerun
is two items or more when it is written out and one node on its level.  `SameText` therefore
compares texts with their blanks, and has a rule for putting texts side by side and one for
grouping.

The other half is that what is written can be read again: it is plain where the leaves are, which is
what the reader of the notation asks for (`Railroad.Proofs.Ebnf.RoundTrip`).
-/
import Railroad.Graph.Printer
import Railroad.Proofs.Build.Language
import Railroad.Proofs.Ebnf.RoundTrip
import Railroad.Proofs.Graph.Items

open scoped Computability

namespace Railroad

open Build (Construct)

/-! ## 1. Flattening keeps the words -/

namespace Expr

/-- The words of the parts of a sequence or an alternation together. -/
def wordsOf : Construct → List Expr → Words
  | .sequence, items => product items
  | .alternation, branches => union branches

theorem language_node (c : Construct) (es : List Expr) : (node c es).language = wordsOf c es := by
  cases c <;> rw [node, language, wordsOf]

@[simp] theorem wordsOf_singleton (c : Construct) (e : Expr) : wordsOf c [e] = e.language := by
  cases c with
  | sequence => exact mul_one _
  | alternation => exact add_zero _

theorem wordsOf_parts (c : Construct) (e : Expr) : wordsOf c (parts c e) = e.language := by
  rcases eq_node_or_whole c e with ⟨es, rfl⟩ | hwhole
  · rw [parts_node, language_node]
  · rw [parts_of_whole hwhole, wordsOf_singleton]

theorem language_join (c : Construct) (es : List Expr) : (join c es).language = wordsOf c es := by
  by_cases hlen : es.length = 1
  · obtain ⟨e, rfl⟩ := List.length_eq_one_iff.mp hlen
    rw [join_singleton, wordsOf_singleton]
  · rw [join_of_length_ne_one hlen, language_node]

theorem union_append (es es' : List Expr) : union (es ++ es') = union es + union es' := by
  rw [union_eq_sum, union_eq_sum, union_eq_sum, List.map_append, List.sum_append]

/-- Parts may be replaced by what has the same words. -/
theorem wordsOf_flatMap {c : Construct} {f : Expr → List Expr} {es : List Expr}
    (h : ∀ e ∈ es, wordsOf c (f e) = e.language) : wordsOf c (es.flatMap f) = wordsOf c es := by
  induction es with
  | nil => rfl
  | cons e es ih =>
    obtain ⟨hfirst, hrest⟩ := List.forall_mem_cons.mp h
    have hes := ih hrest
    rw [List.flatMap_cons]
    cases c with
    | sequence =>
      simp only [wordsOf] at hfirst hes ⊢
      rw [product_append, hfirst, hes, product]
    | alternation =>
      simp only [wordsOf] at hfirst hes ⊢
      rw [union_append, hfirst, hes, union]

/-- **Needless nesting makes no difference to the words.** -/
theorem language_flatten (e : Expr) : e.flatten.language = e.language := by
  induction e using node_induction with
  | literal leaf | identifier leaf | empty => rfl
  | node c es ih =>
    have hparts : ∀ e ∈ es, wordsOf c (parts c e.flatten) = e.language :=
      fun e he => (wordsOf_parts c e.flatten).trans (ih e he)
    rw [flatten_node, language_join, wordsOf_flatMap hparts, language_node]
  | optional e ih => rw [flatten, language, language, ih]
  | repetition e ih => rw [flatten, language, language, ih]
  | oneOrMore e ih => rw [flatten, language, language, ih]

end Expr

/-! ## 2. A tree written out -/

namespace Build

/-- A leaf as it is written, without its style.  Where no symbol is shown there are no words, as in an
alternation without branches. -/
def writtenLeaf : Option (SymbolKind × Leaf) → Expr
  | some (.terminal, leaf) => .literal ⟨leaf.name, {}⟩
  | some (.nonterminal, leaf) => .identifier ⟨leaf.name, {}⟩
  | none => .alternation []

mutual

/-- **What is written for a level,** as items of a sequence.  A rerun is its body, and then any
number of times what is between and the body again.  It is the expression that the printer of graphs
has in mind, and is used in proofs only. -/
def Picture.written : Picture → List Expr
  | .stop => []
  | .symbol shown rest => writtenLeaf shown :: Picture.written rest
  | .epsilon _ rest => .empty :: Picture.written rest
  | .wrap _ rest => Picture.written rest
  | .optional _ body rest => .optional (.sequence (Picture.written body)) :: Picture.written rest
  | .iteration _ body rest => .repetition (.sequence (Picture.written body)) :: Picture.written rest
  | .rerun _ body between rest =>
    Picture.written body ++
      .repetition (.sequence (Picture.written between ++ Picture.written body)) ::
        Picture.written rest
  | .choice branches rest => .alternation (Picture.writtenBranches branches) :: Picture.written rest

/-- What is written for the branches of an alternation. -/
def Picture.writtenBranches : Branches (Option (SymbolKind × Leaf)) → List Expr
  | .last _ body => [.sequence (Picture.written body)]
  | .more _ body others => .sequence (Picture.written body) :: Picture.writtenBranches others

end

namespace Picture

theorem writtenBranches_eq : ∀ bs : Branches (Option (SymbolKind × Leaf)),
    writtenBranches bs = bs.levels.map fun level => .sequence (written level.2)
  | .last _ _ => rfl
  | .more _ body others => congrArg (Expr.sequence (written body) :: ·) (writtenBranches_eq others)

/-- Something is written for a level that a node owns. -/
theorem written_ne_nil {t : Picture} (h : t.IsOwned) : written t ≠ [] := by
  cases t with
  | stop => exact absurd h.1 (by decide)
  | wrap _ _ => exact h.2.elim
  | rerun _ body between rest => exact List.append_ne_nil_of_right_ne_nil _ (List.cons_ne_nil _ _)
  | _ => exact List.cons_ne_nil _ _

mutual

/-- **What is written for a level has the words of the level.** -/
theorem product_written : ∀ t : Picture, Expr.product (written t) = t.language shownWords
  | .stop => rfl
  | .symbol shown rest => by
    have hleaf : (writtenLeaf shown).language = shownWords shown := by
      rcases shown with _ | ⟨_ | _, leaf⟩ <;> rfl
    rw [written, Expr.product, Track.language, product_written rest, hleaf]
  | .epsilon _ rest => by
    rw [written, Expr.product, Track.language, product_written rest, Expr.language]
  | .wrap _ rest => by rw [written, Track.language, product_written rest]
  | .optional _ body rest | .iteration _ body rest => by
    rw [written, Expr.product, Track.language, product_written rest, Expr.language, Expr.language,
      product_written body]
  | .rerun _ body between rest => by
    rw [written, Expr.product_append, Expr.product, Track.language, product_written rest,
      Expr.language, Expr.language, Expr.product_append, product_written body,
      product_written between, mul_assoc]
  | .choice branches rest => by
    rw [written, Expr.product, Track.language, product_written rest, Expr.language,
      union_writtenBranches branches]

theorem union_writtenBranches : ∀ bs : Branches (Option (SymbolKind × Leaf)),
    Expr.union (writtenBranches bs) = Track.branchLanguage shownWords bs
  | .last _ body => by
    rw [writtenBranches, Expr.union, Expr.union, add_zero, Expr.language, product_written body,
      Track.branchLanguage]
  | .more _ body others => by
    rw [writtenBranches, Expr.union, Expr.language, product_written body,
      union_writtenBranches others, Track.branchLanguage]

end

end Picture

end Build

/-! ## 3. The text of what is written -/

/-- **Texts that are the same side by side,** and of which there are none on both sides or on
neither.  Empty lists have to be told apart, since a separator stands between texts and not around
them. -/
structure SameText (texts texts' : List String) : Prop where
  nil_iff : texts = [] ↔ texts' = []
  text : " ".intercalate texts = " ".intercalate texts'

namespace SameText

variable {texts texts' more more' : List String}

theorem refl (texts : List String) : SameText texts texts := ⟨Iff.rfl, rfl⟩

theorem append (h : SameText texts texts') (h' : SameText more more') :
    SameText (texts ++ more) (texts' ++ more') where
  nil_iff := by rw [List.append_eq_nil_iff, List.append_eq_nil_iff, h.nil_iff, h'.nil_iff]
  text := by
    by_cases hnil : texts = []
    · rw [hnil, h.nil_iff.mp hnil, List.nil_append, List.nil_append, h'.text]
    · by_cases hmore : more = []
      · rw [hmore, h'.nil_iff.mp hmore, List.append_nil, List.append_nil, h.text]
      · rw [String.intercalate_append_of_ne_nil hnil hmore, h.text, h'.text,
          String.intercalate_append_of_ne_nil (mt h.nil_iff.mpr hnil) (mt h'.nil_iff.mpr hmore)]

theorem cons {text text' : String} (htext : text = text') (h : SameText more more') :
    SameText (text :: more) (text' :: more') :=
  htext ▸ (refl [text]).append h

/-- Some texts as one. -/
theorem group {text : String} (hne : texts ≠ []) (htext : text = " ".intercalate texts)
    (h : SameText more more') : SameText (text :: more) (texts ++ more') := by
  have hone : SameText [text] texts :=
    ⟨iff_of_false (List.cons_ne_nil _ _) hne, String.intercalate_singleton.trans htext⟩
  exact hone.append h

end SameText

theorem Expr.text_sequence (es : List Expr) :
    (Expr.sequence es).text = " ".intercalate (es.map itemText) := by
  rw [text, itemTexts_eq_map]

/-- **The text of what a node shows:** a terminal is quoted. -/
def shownText : Option (SymbolKind × Leaf) → String
  | some (.terminal, leaf) => Text.quote leaf.name
  | some (.nonterminal, leaf) => leaf.name
  | none => ""

/-- **A node can be written:** the leaf that it shows needs no brackets and no escapes, and the
levels that it owns have nodes and no wraps.  It does not matter what the symbols inside are called,
as long as each can be written. -/
def Item.Writable : Item (Option (SymbolKind × Leaf)) → Prop
  | .symbol shown => (Build.writtenLeaf shown).IsPlain
  | .epsilon _ | .wrap _ => True
  | .optional _ body | .iteration _ body => body.IsOwned
  | .rerun _ body between => body.IsOwned ∧ between.WrapFree
  | .choice branches => ∀ level ∈ branches.levels, level.2.IsOwned

namespace Build.Picture

theorem branchTexts_eq : ∀ bs : Branches (Option (SymbolKind × Leaf)),
    Track.branchTexts shownText bs
      = bs.levels.map fun level => " ".intercalate (level.2.texts shownText)
  | .last _ _ => rfl
  | .more _ body others =>
    congrArg (" ".intercalate (body.texts shownText) :: ·) (branchTexts_eq others)

theorem itemText_writtenLeaf {shown : Option (SymbolKind × Leaf)} (h : (writtenLeaf shown).IsPlain) :
    (writtenLeaf shown).itemText = shownText shown := by
  rcases shown with _ | ⟨_ | _, leaf⟩
  · exact absurd rfl h
  · rfl
  · rfl

/-- What a rerun goes back over, and its body again. -/
theorem text_again {body between : Picture}
    (hbody : SameText (body.texts shownText) ((written body).map Expr.itemText))
    (hbetween : SameText (between.texts shownText) ((written between).map Expr.itemText))
    (howned : body.IsOwned) (hfree : between.WrapFree) :
    (if between.isStop then " ".intercalate (body.texts shownText)
      else " ".intercalate (between.texts shownText) ++ " " ++
        " ".intercalate (body.texts shownText))
      = (Expr.sequence (written between ++ written body)).text := by
  rw [Expr.text_sequence, List.map_append, hbody.text, hbetween.text]
  split
  case isTrue hstop =>
    cases between with
    | stop => rw [written, List.map_nil, List.nil_append]
    | _ => cases hstop
  case isFalse hstop =>
    have hbetween : between.IsOwned := ⟨Bool.eq_false_iff.mpr hstop, hfree⟩
    exact (String.intercalate_append_of_ne_nil (by simpa using written_ne_nil hbetween)
      (by simpa using written_ne_nil howned)).symm

/-- **The text of a rerun** is that of two items or more: its body, and a repetition in braces. -/
theorem text_rerun {body between : Picture}
    (hbody : SameText (body.texts shownText) ((written body).map Expr.itemText))
    (hbetween : SameText (between.texts shownText) ((written between).map Expr.itemText))
    (howned : body.IsOwned) (hfree : between.WrapFree) :
    " ".intercalate (body.texts shownText) ++ " \x7b " ++
        (if between.isStop then " ".intercalate (body.texts shownText)
          else " ".intercalate (between.texts shownText) ++ " " ++
            " ".intercalate (body.texts shownText)) ++ " \x7d"
      = " ".intercalate ((written body ++
          [Expr.repetition (.sequence (written between ++ written body))]).map Expr.itemText) := by
  have hne : (written body).map Expr.itemText ≠ [] := by simpa using written_ne_nil howned
  have hagain : (Expr.repetition (.sequence (written between ++ written body))).itemText
      = "\x7b " ++ (Expr.sequence (written between ++ written body)).text ++ " \x7d" := rfl
  have hopen : " \x7b " = " " ++ "\x7b " := rfl
  rw [text_again hbody hbetween howned hfree, hbody.text, List.map_append, List.map_singleton,
    String.intercalate_append_of_ne_nil hne (List.cons_ne_nil _ _), String.intercalate_singleton,
    hagain, hopen]
  simp only [String.append_assoc]

/-- **What is written for a level has the text of the level.** -/
theorem sameText_written (t : Picture) : (∀ item ∈ t.items, item.Writable) →
    SameText (t.texts shownText) ((written t).map Expr.itemText) := by
  induction t using Track.item_induction with
  | stop => exact fun _ => .refl []
  | before item rest inside ih =>
    intro h
    obtain ⟨hitem, hinside, hrest⟩ := Track.forall_items_before.mp h
    have hrest := ih hrest
    have hlevel : ∀ level ∈ item.levels,
        SameText (level.texts shownText) ((written level).map Expr.itemText) :=
      fun level hlevel => inside level hlevel (hinside level hlevel)
    clear inside hinside ih h
    cases item with
    | symbol shown =>
      rw [Item.before, Track.texts, written, List.map_cons]
      exact .cons (itemText_writtenLeaf hitem).symm hrest
    | epsilon _ =>
      rw [Item.before, Track.texts, written, List.map_cons]
      exact .cons rfl hrest
    | wrap _ => exact hrest
    | optional _ body | iteration _ body =>
      have hbody := List.forall_mem_singleton.mp hlevel
      rw [Item.before, Track.texts, written, List.map_cons]
      refine .cons ?_ hrest
      rw [hbody.text, ← Expr.text_sequence]
      rfl
    | rerun _ body between =>
      obtain ⟨hbody, hlevel⟩ := List.forall_mem_cons.mp hlevel
      have hbetween := List.forall_mem_singleton.mp hlevel
      rw [Item.before, Track.texts, written, List.append_cons, List.map_append]
      exact .group (by simp) (text_rerun hbody hbetween hitem.1 hitem.2) hrest
    | choice branches =>
      have hbranches : Track.branchTexts shownText branches
          = (writtenBranches branches).map Expr.text := by
        rw [branchTexts_eq, writtenBranches_eq, List.map_map]
        refine List.map_congr_left fun level hmem => ?_
        rw [(hlevel level.2 (List.mem_map_of_mem hmem)).text, Function.comp_apply, Expr.text_sequence]
      rw [Item.before, Track.texts, written, List.map_cons, hbranches, ← Expr.branchTexts_eq_map]
      exact .cons rfl hrest

end Build.Picture

/-! ## 4. What is written is plain -/

theorem Expr.subexprsAll_append (es es' : List Expr) :
    subexprsAll (es ++ es') = subexprsAll es ++ subexprsAll es' := by
  induction es with
  | nil => rfl
  | cons e es ih => rw [List.cons_append, subexprsAll, subexprsAll, ih, List.append_assoc]

/-- A sequence that holds something is as plain as what it holds. -/
theorem Expr.plain_sequence {es : List Expr} (hne : es ≠ []) (h : ∀ x ∈ subexprsAll es, x.IsPlain) :
    ∀ x ∈ (Expr.sequence es).subexprs, x.IsPlain :=
  List.forall_mem_cons.mpr ⟨hne, h⟩

namespace Build.Picture

/-- **What is written for nodes that can be written is plain.** -/
theorem plain_written (t : Picture) : (∀ item ∈ t.items, item.Writable) →
    ∀ x ∈ Expr.subexprsAll (written t), x.IsPlain := by
  induction t using Track.item_induction with
  | stop => exact fun _ => List.forall_mem_nil _
  | before item rest inside ih =>
    intro h
    obtain ⟨hitem, hinside, hrest⟩ := Track.forall_items_before.mp h
    have hrest := ih hrest
    have hlevel : ∀ level ∈ item.levels, ∀ x ∈ Expr.subexprsAll (written level), x.IsPlain :=
      fun level hlevel => inside level hlevel (hinside level hlevel)
    clear inside hinside ih h
    cases item with
    | symbol shown =>
      refine List.forall_mem_append.mpr ⟨?_, hrest⟩
      rcases shown with _ | ⟨_ | _, leaf⟩
      · exact absurd rfl hitem
      · exact List.forall_mem_singleton.mpr hitem
      · exact List.forall_mem_singleton.mpr hitem
    | epsilon _ => exact List.forall_mem_cons.mpr ⟨trivial, hrest⟩
    | wrap _ => exact hrest
    | optional _ body | iteration _ body =>
      have hbody := List.forall_mem_singleton.mp hlevel
      exact List.forall_mem_append.mpr ⟨List.forall_mem_cons.mpr
        ⟨trivial, Expr.plain_sequence (written_ne_nil hitem) hbody⟩, hrest⟩
    | rerun _ body between =>
      obtain ⟨hbody, hlevel⟩ := List.forall_mem_cons.mp hlevel
      have hbetween := List.forall_mem_singleton.mp hlevel
      have hagain : ∀ x ∈ Expr.subexprsAll (written between ++ written body), x.IsPlain := by
        rw [Expr.subexprsAll_append]
        exact List.forall_mem_append.mpr ⟨hbetween, hbody⟩
      have hne : written between ++ written body ≠ [] :=
        List.append_ne_nil_of_right_ne_nil _ (written_ne_nil hitem.1)
      rw [Item.before, written, Expr.subexprsAll_append]
      exact List.forall_mem_append.mpr ⟨hbody, List.forall_mem_append.mpr
        ⟨List.forall_mem_cons.mpr ⟨trivial, Expr.plain_sequence hne hagain⟩, hrest⟩⟩
    | choice branches =>
      have hne : writtenBranches branches ≠ [] := by cases branches <;> exact List.cons_ne_nil _ _
      refine List.forall_mem_append.mpr ⟨List.forall_mem_cons.mpr ⟨hne, fun x hx => ?_⟩, hrest⟩
      rw [writtenBranches_eq, Expr.mem_subexprsAll] at hx
      obtain ⟨e, he, hx⟩ := hx
      obtain ⟨level, hmem, rfl⟩ := List.mem_map.mp he
      exact Expr.plain_sequence (written_ne_nil (hitem level hmem))
        (hlevel level.2 (List.mem_map_of_mem hmem)) x hx

end Build.Picture

end Railroad
