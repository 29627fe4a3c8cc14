/-
# Printed grammars are read again

A production is plain if it is printed the way it would be written: its names need no angle
brackets, its literals no escapes, every sequence and alternation holds something, and no leaf has
a style.  The text of plain productions is read as productions with the same names and, up to
needless nesting, with the same trees (`parse_text`).

The printed text and its tokens are followed together: `ScansTo` says what the tokens of a stretch
of text are whatever comes behind it, so stretches with blanks between them can be put side by side.
What a stretch is read as has, after flattening, the parts of what was printed (`Rereads`).  That
holds of the items of a sequence side by side and of the branches of an alternation alike, and an
alternation becomes an item only in parentheses.

The induction is on the expression, and it proves two things at once (`readsTerms_text`): the text
is read as terms when it stands alone, and as factors when it stands in a sequence.  They need each
other, since an alternation inside a sequence is put in parentheses and read as terms in there.
Brackets are one lemma about putting stretches together (`ScansTo.bracketed`), and parts side by
side are another (`of_intercalate`), for any separator, since that is all in which the texts of
sequences and of alternations differ.

The trees are equal only up to needless nesting because text cannot show it: a sequence inside a
sequence is printed like one long sequence.  An expression that has no such nesting comes back as it
was.
-/
import Mathlib.Data.List.Forall2
import Railroad.Expr.Printer
import Railroad.Proofs.Ebnf.Reader

namespace Railroad

open Build (Construct)
open Railroad.Expr (parts)

namespace Ebnf

/-! ## 1. Plain productions -/

/-- A name that needs no angle brackets. -/
def isPlainName (name : String) : Bool :=
  match name.toList with
  | [] => false
  | c :: cs => isNameStart c && cs.all isNamePart

end Ebnf

/-- An expression that is printed the way it would be written, whatever is inside it. -/
def Expr.IsPlain : Expr → Prop
  | .literal leaf =>
    leaf.style = {} ∧ leaf.name ≠ "" ∧ Text.quote leaf.name = "\"" ++ leaf.name ++ "\""
  | .identifier leaf => leaf.style = {} ∧ Ebnf.isPlainName leaf.name = true
  | .sequence items => items ≠ []
  | .alternation branches => branches ≠ []
  | _ => True

/-- **A production that is printed the way it would be written.**  Nothing is asked about how its
expression is nested. -/
structure Production.IsPlain (p : Production) : Prop where
  name : Ebnf.isPlainName p.name = true
  expr : ∀ e ∈ p.expr.subexprs, e.IsPlain

namespace Ebnf

/-! ## 2. Stretches of text side by side -/

/-- Nothing, or something that begins with a blank. -/
def Delimited (rest : List Char) : Prop := ∀ c ∈ rest.head?, Text.isBlank c = true

/-- **The tokens of a stretch of text,** if a blank or nothing comes behind it.  Without the blank
the last token of the stretch might go on into what follows. -/
def ScansTo (s : List Char) (ts : List Token) : Prop :=
  ∀ rest us, Delimited rest → Scans rest us → Scans (s ++ rest) (ts ++ us)

theorem Delimited.apart {rest : List Char} (h : Delimited rest) (t : Token) : t.Apart rest := by
  have hblank : ∀ c, Text.isBlank c = true → isNamePart c = false ∧ c ≠ '*' := by
    intro c
    simp only [Text.isBlank, Bool.or_eq_true, beq_iff_eq]
    rintro (((rfl | rfl) | rfl) | rfl) <;> decide
  unfold Token.Apart
  split
  · exact fun c hc => (hblank c (h c hc)).1
  · exact fun hstar => (hblank '*' (h '*' hstar)).2 rfl
  · trivial

namespace ScansTo

variable {s s' w : List Char} {ts us : List Token} {t : Token}

theorem scans (h : ScansTo s ts) : Scans s ts := by
  have hend := h [] [] (by simp [Delimited]) .nil
  rwa [List.append_nil, List.append_nil] at hend

/-- A token at the beginning of a stretch. -/
theorem cons (h : ScansTo s ts) (hspells : Spells w (some t))
    (hapart : ∀ rest, Delimited rest → t.Apart (s ++ rest)) : ScansTo (w ++ s) (t :: ts) := by
  intro rest us hrest hscans
  rw [List.append_assoc]
  exact (h _ _ hrest hscans).token hspells (hapart rest hrest)

theorem token (h : Spells w (some t)) : ScansTo w [t] := by
  intro rest us hrest hscans
  exact hscans.token h (hrest.apart t)

/-- Two stretches with a blank between them. -/
theorem blank {c : Char} (h : ScansTo s ts) (hc : Text.isBlank c = true) (h' : ScansTo s' us) :
    ScansTo (s ++ c :: s') (ts ++ us) := by
  intro rest vs hrest hscans
  have hbehind : Scans (c :: (s' ++ rest)) (us ++ vs) :=
    (h' _ _ hrest hscans).skip (skipBlanks_space hc _)
  have hdelimited : Delimited (c :: (s' ++ rest)) := by
    intro d hd
    obtain rfl : c = d := Option.some.inj hd
    exact hc
  rw [List.append_assoc, List.append_assoc]
  exact h _ _ hdelimited hbehind

theorem closing (bracket : Bracket) : ScansTo [bracket.right] [.closing bracket] := by
  cases bracket <;> exact .token (.mark rfl)

theorem closing_plus : ScansTo ['\x7d', '+'] [.closing .curly, .plus] := by
  have hplus : ScansTo ['+'] [.plus] := .token (.mark rfl)
  exact hplus.cons (.mark rfl) fun _ _ => trivial

/-- Brackets with a blank on either side of what is between them. -/
theorem bracketed {tail : List Char} (h : ScansTo s ts) (bracket : Bracket)
    (hclose : ScansTo tail us) :
    ScansTo (bracket.left :: ' ' :: s ++ ' ' :: tail) (.opening bracket :: ts ++ us) := by
  have hopen : ScansTo [bracket.left] [.opening bracket] := by
    cases bracket <;> exact .token (.mark rfl)
  have hspace : Text.isBlank ' ' = true := rfl
  exact (hopen.blank hspace h).blank hspace hclose

end ScansTo

/-! ## 3. Names and literals -/

theorem spells_of_isPlainName {name : String} (h : isPlainName name = true) :
    Spells name.toList (some (.name name)) := by
  unfold isPlainName at h
  split at h
  · cases h
  · rename_i c cs hname
    rw [Bool.and_eq_true, List.all_eq_true] at h
    have hspells := Spells.name h.1 h.2
    rwa [← hname, String.ofList_toList] at hspells

/-- Where no character becomes longer, every character is as long as one. -/
theorem length_eq_one_of_flatMap {f : Char → List Char} {cs : List Char} (hf : ∀ c, f c ≠ [])
    (h : cs.flatMap f = cs) : ∀ c ∈ cs, (f c).length = 1 := by
  have hle : ∀ ds : List Char, ds.length ≤ (ds.flatMap f).length := by
    intro ds
    induction ds with
    | nil => simp
    | cons d ds ih =>
      have := List.length_pos_of_ne_nil (hf d)
      rw [List.flatMap_cons, List.length_cons, List.length_append]
      omega
  intro c hc
  obtain ⟨before, after, rfl⟩ := List.append_of_mem hc
  have hlen := congrArg List.length h
  have hbefore := hle before
  have hafter := hle after
  have hpos := List.length_pos_of_ne_nil (hf c)
  simp only [List.flatMap_append, List.flatMap_cons, List.length_append, List.length_cons] at hlen
  omega

/-- A literal that is shown as it is holds no quote and no line break. -/
theorem spells_quote {name : String} (h : Text.quote name = "\"" ++ name ++ "\"") :
    Spells (Text.quote name).toList (some (.literal '"' name)) := by
  have hchars : name.toList.flatMap (fun c => (Text.quoteChar c).toList) = name.toList := by
    have hlist := congrArg String.toList h
    simpa [Text.quote, String.toList_join, List.flatMap_map] using hlist
  have hlen := length_eq_one_of_flatMap (fun c => ?_) hchars
  · have hinside : ∀ c ∈ name.toList, c ≠ '"' ∧ c ≠ '\n' := by
      intro c hc
      constructor
      · rintro rfl
        exact absurd (hlen _ hc) (by decide)
      · rintro rfl
        exact absurd (hlen _ hc) (by decide)
    have hspells : Spells ('"' :: (name.toList ++ ['"'])) _ := .literal (.inl rfl) hinside
    rw [String.ofList_toList] at hspells
    rw [h]
    simpa using hspells
  · unfold Text.quoteChar
    split_ifs <;> simp [Text.codePoint]

/-! ## 4. What is read in place of what was printed -/

/-- An expression that is read where another was printed: the same up to needless nesting, and the
very same if there was none. -/
structure Rereads (e f : Expr) : Prop where
  flatten : f.flatten = e.flatten
  exact : e.Flat → f = e

/-- The same for expressions that are parts of one sequence or alternation. -/
structure RereadsParts (c : Construct) (es fs : List Expr) : Prop where
  filled : fs ≠ []
  flatten : (fs.flatMap fun f => parts c f.flatten) = es.flatMap fun e => parts c e.flatten
  exact : (∀ e ∈ es, e.Flat) → fs = es.flatMap (parts c)

variable {c : Construct} {e f : Expr} {es es' fs fs' : List Expr}

theorem Rereads.single (h : Rereads e f) (hwhole : e.Whole c) : RereadsParts c [e] [f] where
  filled := List.cons_ne_nil f []
  flatten := by rw [List.flatMap_singleton, List.flatMap_singleton, h.flatten]
  exact hflat := by
    rw [List.flatMap_singleton, Expr.parts_of_whole hwhole,
      h.exact (hflat e (List.mem_singleton_self e))]

namespace RereadsParts

theorem append (h : RereadsParts c es fs) (h' : RereadsParts c es' fs') :
    RereadsParts c (es ++ es') (fs ++ fs') where
  filled := List.append_ne_nil_of_left_ne_nil h.filled fs'
  flatten := by rw [List.flatMap_append, List.flatMap_append, h.flatten, h'.flatten]
  exact hflat := by
    obtain ⟨hes, hes'⟩ := List.forall_mem_append.mp hflat
    rw [List.flatMap_append, h.exact hes, h'.exact hes']

/-- What is read for the parts of a sequence or alternation is read for it. -/
theorem node (h : RereadsParts c es fs) : RereadsParts c [Expr.node c es] fs where
  filled := h.filled
  flatten := by rw [List.flatMap_singleton, Expr.parts_flatten_node, h.flatten]
  exact hflat := by
    have hes := (hflat _ (List.mem_singleton_self _)).of_node.2
    have hparts : ∀ e ∈ es, parts c e = [e] := fun e he => Expr.parts_of_whole (hes e he).2
    rw [List.flatMap_singleton, Expr.parts_node, h.exact fun e he => (hes e he).1,
      List.flatMap_congr hparts, List.flatMap_singleton']

/-- Parts that are read for an expression make what is read for it. -/
theorem join (h : RereadsParts c [e] fs) : Rereads e (Expr.join c fs) where
  flatten := by rw [Expr.flatten_join, h.flatten, List.flatMap_singleton, Expr.join_parts_flatten]
  exact hflat := by
    rw [h.exact (List.forall_mem_singleton.mpr hflat), List.flatMap_singleton, hflat.join_parts]

end RereadsParts

/-! ## 5. Reading a printed expression -/

/-- The text is read as a factor. -/
def ReadsFactor (s : String) (e : Expr) : Prop :=
  ∃ ts f, ScansTo s.toList ts ∧ IsFactor ts f ∧ Rereads e f

/-- The text is read as factors of a term. -/
def ReadsFactors (s : String) (es : List Expr) : Prop :=
  ∃ ts fs, ScansTo s.toList ts ∧ IsFactors ts fs ∧ RereadsParts .sequence es fs

/-- The text is read as terms of an expression. -/
def ReadsTerms (s : String) (es : List Expr) : Prop :=
  ∃ ts fs, ScansTo s.toList ts ∧ IsTerms ts fs ∧ RereadsParts .alternation es fs

/-- The text is read as an expression. -/
def ReadsExpression (s : String) (e : Expr) : Prop :=
  ∃ ts f, ScansTo s.toList ts ∧ IsExpression ts f ∧ Rereads e f

variable {s s' : String}

theorem ReadsFactor.factors (h : ReadsFactor s e) (hwhole : e.Whole .sequence) :
    ReadsFactors s [e] := by
  obtain ⟨ts, f, hscans, hfactor, hreads⟩ := h
  have hfactors : IsFactors (ts ++ []) [f] := .cons hfactor .nil
  rw [List.append_nil] at hfactors
  exact ⟨ts, [f], hscans, hfactors, hreads.single hwhole⟩

namespace ReadsFactors

theorem append (h : ReadsFactors s es) (h' : ReadsFactors s' es') :
    ReadsFactors (s ++ " " ++ s') (es ++ es') := by
  obtain ⟨ts, fs, hscans, hfactors, hreads⟩ := h
  obtain ⟨us, fs', hscans', hfactors', hreads'⟩ := h'
  refine ⟨ts ++ us, fs ++ fs', ?_, hfactors.append hfactors', hreads.append hreads'⟩
  have hall := hscans.blank (c := ' ') rfl hscans'
  simpa using hall

theorem node (h : ReadsFactors s es) : ReadsFactors s [Expr.node .sequence es] := by
  obtain ⟨ts, fs, hscans, hfactors, hreads⟩ := h
  exact ⟨ts, fs, hscans, hfactors, hreads.node⟩

theorem terms (h : ReadsFactors s [e]) (hwhole : e.Whole .alternation) : ReadsTerms s [e] := by
  obtain ⟨ts, fs, hscans, hfactors, hreads⟩ := h
  have hterms := IsTerms.last hfactors
  rw [termOf_of_ne_nil hreads.filled] at hterms
  exact ⟨ts, _, hscans, hterms, hreads.join.single hwhole⟩

end ReadsFactors

namespace ReadsTerms

theorem append (h : ReadsTerms s es) (h' : ReadsTerms s' es') :
    ReadsTerms (s ++ " | " ++ s') (es ++ es') := by
  obtain ⟨ts, fs, hscans, hterms, hreads⟩ := h
  obtain ⟨us, fs', hscans', hterms', hreads'⟩ := h'
  refine ⟨ts ++ .bar :: us, fs ++ fs', ?_, hterms.append hterms', hreads.append hreads'⟩
  have hbar : ScansTo ['|'] [.bar] := .token (.mark rfl)
  have hall := hscans.blank (c := ' ') rfl (hbar.blank (c := ' ') rfl hscans')
  simpa using hall

theorem node (h : ReadsTerms s es) : ReadsTerms s [Expr.node .alternation es] := by
  obtain ⟨ts, fs, hscans, hterms, hreads⟩ := h
  exact ⟨ts, fs, hscans, hterms, hreads.node⟩

theorem expression (h : ReadsTerms s [e]) : ReadsExpression s e := by
  obtain ⟨ts, fs, hscans, hterms, hreads⟩ := h
  exact ⟨ts, _, hscans, .terms hterms, hreads.join⟩

end ReadsTerms

namespace ReadsExpression

theorem group (h : ReadsExpression s e) : ReadsFactor ("( " ++ s ++ " )") e := by
  obtain ⟨ts, f, hscans, hexpr, hreads⟩ := h
  refine ⟨_, f, ?_, .group hexpr, hreads⟩
  simpa [Bracket.left, Bracket.right] using hscans.bracketed .round (.closing .round)

theorem optional (h : ReadsExpression s e) : ReadsFactor ("[ " ++ s ++ " ]") (.optional e) := by
  obtain ⟨ts, f, hscans, hexpr, hreads⟩ := h
  refine ⟨_, _, ?_, .option hexpr, congrArg Expr.optional hreads.flatten, fun hflat => ?_⟩
  · simpa [Bracket.left, Bracket.right] using hscans.bracketed .square (.closing .square)
  · rw [hreads.exact (Expr.flat_optional.mp hflat)]

theorem repetition (h : ReadsExpression s e) :
    ReadsFactor ("\x7b " ++ s ++ " \x7d") (.repetition e) := by
  obtain ⟨ts, f, hscans, hexpr, hreads⟩ := h
  refine ⟨_, _, ?_, .repetition hexpr, congrArg Expr.repetition hreads.flatten, fun hflat => ?_⟩
  · simpa [Bracket.left, Bracket.right] using hscans.bracketed .curly (.closing .curly)
  · rw [hreads.exact (Expr.flat_repetition.mp hflat)]

theorem oneOrMore (h : ReadsExpression s e) :
    ReadsFactor ("\x7b " ++ s ++ " \x7d+") (.oneOrMore e) := by
  obtain ⟨ts, f, hscans, hexpr, hreads⟩ := h
  refine ⟨_, _, ?_, .atLeastOnce hexpr, congrArg Expr.oneOrMore hreads.flatten, fun hflat => ?_⟩
  · simpa [Bracket.left] using hscans.bracketed .curly .closing_plus
  · rw [hreads.exact (Expr.flat_oneOrMore.mp hflat)]

end ReadsExpression

/-! ## 6. Reading printed productions -/

end Ebnf

namespace Expr

/-- The text of an expression as an item of a sequence. -/
def itemText (e : Expr) : String := if e.isAlternation then "( " ++ e.text ++ " )" else e.text

theorem itemTexts_eq_map (es : List Expr) : itemTexts es = es.map itemText := by
  induction es with
  | nil => rfl
  | cons e es ih =>
    rw [itemTexts, ih]
    rfl

theorem branchTexts_eq_map (es : List Expr) : branchTexts es = es.map text := by
  induction es with
  | nil => rfl
  | cons e es ih =>
    rw [branchTexts, ih]
    rfl

theorem itemText_of_whole {e : Expr} (h : e.Whole .alternation) : e.itemText = e.text := by
  unfold itemText isAlternation
  split
  · exact absurd rfl (h _)
  · rfl

end Expr

namespace Ebnf

/-- What holds of some texts holds of all of them put side by side. -/
theorem of_intercalate {α : Type} {P : String → List α → Prop} {text : α → String} {sep : String}
    (happend : ∀ {s s' xs xs'}, P s xs → P s' xs' → P (s ++ sep ++ s') (xs ++ xs')) {xs : List α}
    (hne : xs ≠ []) (h : ∀ x ∈ xs, P (text x) [x]) : P (sep.intercalate (xs.map text)) xs := by
  induction xs with
  | nil => exact absurd rfl hne
  | cons x xs ih =>
    obtain ⟨hx, hxs⟩ := List.forall_mem_cons.mp h
    cases xs with
    | nil => simpa using hx
    | cons y ys =>
      rw [List.map_cons, List.map_cons, String.intercalate_cons_cons]
      exact happend hx (ih (List.cons_ne_nil y ys) hxs)

/-- **The text of a plain expression is read,** as terms where it stands alone and as factors where
it is an item. -/
theorem readsTerms_text {e : Expr} (h : ∀ x ∈ e.subexprs, x.IsPlain) :
    ReadsTerms e.text [e] ∧ ReadsFactors e.itemText [e] := by
  have of_factor : ∀ {e : Expr}, (∀ c, e.Whole c) → ReadsFactor e.text e →
      ReadsTerms e.text [e] ∧ ReadsFactors e.itemText [e] := by
    intro e hwhole hfactor
    have hfactors := hfactor.factors (hwhole .sequence)
    rw [Expr.itemText_of_whole (hwhole .alternation)]
    exact ⟨hfactors.terms (hwhole .alternation), hfactors⟩
  induction e using Expr.node_induction with
  | literal leaf =>
    obtain ⟨hstyle, hne, hquote⟩ := h _ (Expr.mem_subexprs_self _)
    obtain ⟨name, style⟩ := leaf
    obtain rfl : style = {} := hstyle
    have hscans := ScansTo.token (spells_quote hquote)
    exact of_factor (by rintro (_ | _) es <;> nofun)
      ⟨_, _, hscans, .literal '"' hne, rfl, fun _ => rfl⟩
  | identifier leaf =>
    obtain ⟨hstyle, hname⟩ := h _ (Expr.mem_subexprs_self _)
    obtain ⟨name, style⟩ := leaf
    obtain rfl : style = {} := hstyle
    have hscans := ScansTo.token (spells_of_isPlainName hname)
    exact of_factor (by rintro (_ | _) es <;> nofun)
      ⟨_, _, hscans, .name (.plain name), rfl, fun _ => rfl⟩
  | empty =>
    have hempty : IsFactor [.opening .round, .closing .round] .empty := .group (.terms (.last .nil))
    have hscans : ScansTo ['(', ')'] [.opening .round, .closing .round] :=
      (ScansTo.closing .round).cons (.mark rfl) fun _ _ hstar => by cases hstar
    exact of_factor (by rintro (_ | _) es <;> nofun) ⟨_, _, hscans, hempty, rfl, fun _ => rfl⟩
  | node c es ih =>
    have hes : ∀ e ∈ es, ReadsTerms e.text [e] ∧ ReadsFactors e.itemText [e] :=
      fun e he => ih e he fun x hx => h x (Expr.mem_subexprs_node he hx)
    have hne : es ≠ [] := by
      have hplain := h _ (Expr.mem_subexprs_self _)
      cases c <;> exact hplain
    cases c with
    | sequence =>
      have hitems : ReadsFactors (Expr.sequence es).text es := by
        rw [Expr.text, Expr.itemTexts_eq_map]
        exact of_intercalate .append hne fun e he => (hes e he).2
      have hwhole : (Expr.node .sequence es).Whole .alternation := Expr.whole_node (by decide) es
      rw [Expr.itemText_of_whole hwhole]
      exact ⟨hitems.node.terms hwhole, hitems.node⟩
    | alternation =>
      have hbranches : ReadsTerms (Expr.alternation es).text es := by
        rw [Expr.text, Expr.branchTexts_eq_map]
        exact of_intercalate .append hne fun e he => (hes e he).1
      have hwhole : (Expr.node .alternation es).Whole .sequence := Expr.whole_node (by decide) es
      exact ⟨hbranches.node, hbranches.node.expression.group.factors hwhole⟩
  | optional e ih =>
    have he := (ih fun x hx => h x (List.mem_cons_of_mem _ hx)).1
    exact of_factor (by rintro (_ | _) es <;> nofun) he.expression.optional
  | repetition e ih =>
    have he := (ih fun x hx => h x (List.mem_cons_of_mem _ hx)).1
    exact of_factor (by rintro (_ | _) es <;> nofun) he.expression.repetition
  | oneOrMore e ih =>
    have he := (ih fun x hx => h x (List.mem_cons_of_mem _ hx)).1
    exact of_factor (by rintro (_ | _) es <;> nofun) he.expression.oneOrMore

/-- A production that is read where another was printed. -/
structure RereadsProduction (p q : Production) : Prop where
  name : q.name = p.name
  expr : Rereads p.expr q.expr

/-- The text is read as productions. -/
def ReadsGrammar (s : String) (ps : List Production) : Prop :=
  ∃ ts qs, ScansTo s.toList ts ∧ IsGrammar ts qs ∧ List.Forall₂ RereadsProduction ps qs

theorem ReadsGrammar.append {s s' : String} {ps ps' : List Production} (h : ReadsGrammar s ps)
    (h' : ReadsGrammar s' ps') : ReadsGrammar (s ++ "\n" ++ s') (ps ++ ps') := by
  obtain ⟨ts, qs, hscans, hgrammar, hreads⟩ := h
  obtain ⟨us, qs', hscans', hgrammar', hreads'⟩ := h'
  refine ⟨ts ++ us, qs ++ qs', ?_, hgrammar.append hgrammar', List.rel_append hreads hreads'⟩
  have hall := hscans.blank (c := '\n') rfl hscans'
  simpa using hall

/-- **The text of a plain production is read** as one production. -/
theorem readsGrammar_text {p : Production} (h : p.IsPlain) : ReadsGrammar p.text [p] := by
  obtain ⟨ts, f, hscans, hexpr, hreads⟩ := (readsTerms_text h.expr).1.expression
  have hproduction := IsProduction.intro (.plain p.name) false hexpr '.'
  have hgrammar : IsGrammar (_ ++ []) [⟨p.name, f⟩] := .cons hproduction .nil
  rw [List.append_nil] at hgrammar
  refine ⟨_, [⟨p.name, f⟩], ?_, hgrammar, .cons ⟨rfl, hreads⟩ .nil⟩
  have hname : ScansTo p.name.toList [.name p.name] := .token (spells_of_isPlainName h.name)
  have hdefine : ScansTo ['='] [.define false] := .token (.mark rfl)
  have hstop : ScansTo ['.'] [.terminator '.'] := .token (.mark rfl)
  have hspace : Text.isBlank ' ' = true := rfl
  have hall := hname.blank hspace (hdefine.blank hspace (hscans.blank hspace hstop))
  simpa [Production.text] using hall

/-- **Reading undoes printing.**  The texts of plain productions, one on a line, are read as
productions with the same names in the same order and with the same expressions up to needless
nesting; where there is none, they are the very productions that were printed.

All productions are read together, from one text, so it is also said that none of them reads on into
the next line. -/
theorem parse_text (ps : List Production) (h : ∀ p ∈ ps, p.IsPlain) :
    ∃ qs, parse ("\n".intercalate (ps.map Production.text)) = .ok qs ∧
      List.Forall₂ (fun p q => q.name = p.name ∧ q.expr.flatten = p.expr.flatten) ps qs ∧
      ((∀ p ∈ ps, p.expr.Flat) → qs = ps) := by
  obtain ⟨ts, qs, hscans, hgrammar, hreads⟩ :
      ReadsGrammar ("\n".intercalate (ps.map Production.text)) ps := by
    by_cases hne : ps = []
    · subst hne
      exact ⟨[], [], fun _ _ _ h => h, .nil, .nil⟩
    · exact of_intercalate .append hne fun p hp => readsGrammar_text (h p hp)
  refine ⟨qs, parse_eq_ok.mpr (parseChars_eq_ok.mpr ⟨ts, hscans.scans, hgrammar⟩), ?_, ?_⟩
  · exact hreads.imp fun p q hpq => ⟨hpq.name, hpq.expr.flatten⟩
  · intro hflat
    clear h hscans hgrammar
    induction hreads with
    | nil => rfl
    | @cons p q ps qs hpq _ ih =>
      obtain ⟨hp, hps⟩ := List.forall_mem_cons.mp hflat
      obtain ⟨name, e⟩ := p
      obtain ⟨name', e'⟩ := q
      obtain rfl : name' = name := hpq.name
      obtain rfl : e' = e := hpq.expr.exact hp
      rw [ih hps]

/-- An alternation in a sequence in an alternation, a sequence in a sequence and a single item. -/
def nestedProductions : List Production :=
  [⟨"list", .alternation
      [.sequence
        [.literal ⟨"(", {}⟩, .alternation [.identifier ⟨"item", {}⟩, .empty],
          .sequence [.oneOrMore (.sequence [.identifier ⟨"list", {}⟩]), .literal ⟨")", {}⟩]],
        .alternation [.empty, .optional (.identifier ⟨"item", {}⟩)]]⟩,
    ⟨"item", .literal ⟨"x", {}⟩⟩]

theorem parse_text_nestedProductions :
    (∀ p ∈ nestedProductions, p.IsPlain) ∧
    ∃ qs, parse ("list = \"(\" ( item | () ) \x7b list \x7d+ \")\" | () | [ item ] .\n" ++
        "item = \"x\" .") = .ok qs ∧
      List.Forall₂ (fun p q => q.name = p.name ∧ q.expr.flatten = p.expr.flatten)
        nestedProductions qs ∧
      ((∀ p ∈ nestedProductions, p.expr.Flat) → qs = nestedProductions) := by
  have hplain : ∀ p ∈ nestedProductions, p.IsPlain := by
    simp only [nestedProductions, List.forall_mem_cons, List.not_mem_nil, false_implies,
      implies_true, and_true]
    refine ⟨⟨by decide, ?_⟩, ⟨by decide, ?_⟩⟩
    · simp [Expr.subexprs, Expr.subexprsAll, Expr.IsPlain]
      decide
    · simp [Expr.subexprs, Expr.IsPlain]
      decide
  exact ⟨hplain, parse_text nestedProductions hplain⟩

end Ebnf

end Railroad
