/-
# What the reader makes of a text

The reader keeps the tokens since the last production as a stack of frames.  `State.Reads` says
which tokens these are: every frame stands for finished terms, each with a bar behind it, and the
factors of one more term.  One token keeps that (`State.Reads.next`), so whatever the reader makes of
a text is derived from its tokens (`State.Reads.isGrammar`).

With `IsGrammar.feed` and `splits_iff_scans` this makes the reader and the notation the same
(`parse_iff_derives`).

The invariant has three layers, which are the three layers of the state.  `Frame.Reads` is about one
frame, `IsOpen` about the brackets that are open around it, and `State.Reads` about the production
that all of it belongs to.  For a frame there is one lemma for each thing that may be done to it
(`push`, `repetition`, `plus`, `bar`, `close`), and the step lemma only finds out which of them a
token calls for; a change to one kind of token changes one lemma.

What is proved here is that what is read is derived.  The other direction is `IsGrammar.feed`, by
induction on the derivation, and the two together say that a text has at most one reading.  That the
stack gives the same answers as descending into the rules with backtracking, mistakes included, is
another matter (`Railroad.Proofs.Ebnf.Agreement`).
-/
import Railroad.Proofs.Ebnf.Derivation
import Railroad.Proofs.Ebnf.Tokens

namespace Railroad.Ebnf

/-! ## 1. What tokens make of a frame -/

/-- Finished terms, each with the bar behind it. -/
inductive IsBarred : List Token → List Expr → Prop where
  | nil : IsBarred [] []
  | snoc {ts us : List Token} {terms es : List Expr} (before : IsBarred ts terms)
    (last : IsFactors us es) : IsBarred (ts ++ us ++ [.bar]) (terms ++ [termOf es])

theorem IsBarred.append {ts us : List Token} {before terms : List Expr} (h : IsBarred ts before)
    (h' : IsTerms us terms) : IsTerms (ts ++ us) (before ++ terms) := by
  induction h generalizing us terms with
  | nil => exact h'
  | snoc _ last ih =>
    have hboth := ih (IsTerms.cons last h')
    simpa using hboth

/-- **What the tokens since the last bracket or definition sign make of a frame.**  After those of a
repetition, a plus may still come.  Bars are tokens of the frame, each behind the term that it ends.
-/
inductive Frame.Reads : Frame → Bool → List Token → Prop where
  | other {frame : Frame} {us vs : List Token} (before : IsBarred us frame.terms.reverse)
    (term : IsFactors vs frame.factors.reverse) : Reads frame false (us ++ vs)
  | repeated {terms factors : List Expr} {us vs ws : List Token} {inner : Expr}
    (before : IsBarred us terms.reverse) (term : IsFactors vs factors.reverse)
    (body : IsExpression ws inner) : Reads ⟨terms, .repetition inner :: factors⟩ true
      (us ++ vs ++ (.opening .curly :: ws ++ [.closing .curly]))

namespace Frame.Reads

variable {frame : Frame} {repeated : Bool} {ts us : List Token} {e : Expr}

theorem empty : Frame.Reads {} false [] := by
  have h : Frame.Reads {} false ([] ++ []) := .other .nil .nil
  exact h

theorem snoc {vs : List Token} {factors : List Expr} (h : IsFactors vs factors.reverse)
    (h' : IsFactor us e) : IsFactors (vs ++ us) (e :: factors).reverse := by
  have hlast : IsFactors (us ++ []) [e] := .cons h' .nil
  rw [List.append_nil] at hlast
  rw [List.reverse_cons]
  exact h.append hlast

theorem parts (h : frame.Reads repeated ts) : ∃ us vs, ts = us ++ vs ∧
    IsBarred us frame.terms.reverse ∧ IsFactors vs frame.factors.reverse := by
  cases h with
  | other barred factors => exact ⟨_, _, rfl, barred, factors⟩
  | repeated barred factors body =>
    exact ⟨_, _, List.append_assoc _ _ _, barred, snoc factors (.repetition body)⟩

/-- The tokens of a frame are those of its expression. -/
theorem isExpression (h : frame.Reads repeated ts) : IsExpression ts frame.expr := by
  obtain ⟨us, vs, rfl, barred, factors⟩ := h.parts
  rw [Frame.expr_eq, Frame.term_eq]
  exact .terms (barred.append (.last factors))

theorem push (h : frame.Reads repeated ts) (h' : IsFactor us e) :
    (frame.push e).Reads false (ts ++ us) := by
  obtain ⟨us, vs, rfl, barred, factors⟩ := h.parts
  rw [List.append_assoc]
  exact .other barred (snoc factors h')

theorem repetition (h : frame.Reads repeated ts) (h' : IsExpression us e) :
    (frame.push (.repetition e)).Reads true
      (ts ++ (.opening .curly :: us ++ [.closing .curly])) := by
  obtain ⟨us, vs, rfl, barred, factors⟩ := h.parts
  exact .repeated barred factors h'

theorem plus {terms factors : List Expr} {inner : Expr}
    (h : Frame.Reads ⟨terms, .repetition inner :: factors⟩ true ts) :
    Frame.Reads ⟨terms, .oneOrMore inner :: factors⟩ false (ts ++ [.plus]) := by
  cases h with
  | repeated barred factors body =>
    have hlast := snoc factors (.atLeastOnce body)
    have hall : Frame.Reads ⟨terms, .oneOrMore inner :: _⟩ false _ := .other barred hlast
    simpa using hall

theorem bar (h : frame.Reads repeated ts) : frame.bar.Reads false (ts ++ [.bar]) := by
  obtain ⟨us, vs, rfl, barred, factors⟩ := h.parts
  have hterms : IsBarred (us ++ vs ++ [.bar]) frame.bar.terms.reverse := by
    rw [Frame.bar, List.reverse_cons, Frame.term_eq]
    exact .snoc barred factors
  have h : frame.bar.Reads false (us ++ vs ++ [.bar] ++ []) := .other hterms .nil
  rwa [List.append_nil] at h

end Frame.Reads

/-! ## 2. What tokens make of the reader -/

/-- What the tokens since the definition sign make of the open brackets and the frame inside. -/
inductive IsOpen : List (Bracket × Frame) → Frame → Bool → List Token → Prop where
  | base {frame : Frame} {repeated : Bool} {ts : List Token} (h : frame.Reads repeated ts) :
    IsOpen [] frame repeated ts
  | nest {outer : List (Bracket × Frame)} {before frame : Frame} {repeated repeated' : Bool}
    {ts us : List Token} (bracket : Bracket) (h : IsOpen outer before repeated ts)
    (h' : frame.Reads repeated' us) :
    IsOpen ((bracket, before) :: outer) frame repeated' (ts ++ .opening bracket :: us)

/-- What more tokens make of the frame inside, they make of the whole. -/
theorem IsOpen.extend {outer : List (Bracket × Frame)} {frame frame' : Frame}
    {repeated repeated' : Bool} {ts vs : List Token} (h : IsOpen outer frame repeated ts)
    (hstep : ∀ us, frame.Reads repeated us → frame'.Reads repeated' (us ++ vs)) :
    IsOpen outer frame' repeated' (ts ++ vs) := by
  cases h with
  | base h => exact .base (hstep _ h)
  | nest bracket h h' =>
    rw [List.append_assoc]
    exact .nest bracket h (hstep _ h')

/-- **What the tokens since the last production make of the reader.**  Between two productions there
are none. -/
inductive State.Reads : State → List Token → Prop where
  | between : Reads .between []
  | named {t : Token} {name : String} (h : IsName t name) : Reads (.named name) [t]
  | body {t : Token} {name : String} {outer : List (Bracket × Frame)} {frame : Frame}
    {repeated : Bool} {ts : List Token} (h : IsName t name) (long : Bool)
    (h' : IsOpen outer frame repeated ts) :
    Reads (.body name outer frame repeated) (t :: .define long :: ts)

/-- A closed bracket is a factor of the frame that stood before it. -/
theorem Frame.Reads.close {frame before : Frame} {repeated repeated' : Bool} {ts us : List Token}
    (bracket : Bracket) (h : before.Reads repeated ts) (h' : frame.Reads repeated' us) :
    (before.push (bracket.wrap frame.expr)).Reads (bracket == .curly)
      (ts ++ (.opening bracket :: us ++ [.closing bracket])) := by
  cases bracket with
  | round => exact h.push (.group h'.isExpression)
  | square => exact h.push (.option h'.isExpression)
  | curly => exact h.repetition h'.isExpression

/-- **One token in a right-hand side.** -/
theorem IsOpen.next {name : String} {outer : List (Bracket × Frame)} {frame : Frame}
    {repeated : Bool} {ts : List Token} {t : Token} {state : State} {p? : Option Production}
    (h : IsOpen outer frame repeated ts)
    (hnext : (State.body name outer frame repeated).next t = some (state, p?)) :
    (p? = none ∧ ∃ outer frame repeated, state = .body name outer frame repeated ∧
        IsOpen outer frame repeated (ts ++ [t])) ∨
      ∃ mark e, t = .terminator mark ∧ p? = some ⟨name, e⟩ ∧ state = .between ∧
        IsExpression ts e := by
  cases t with
  | name text =>
    cases hnext
    exact .inl ⟨rfl, _, _, _, rfl, h.extend fun us hus => hus.push (.name (.plain text))⟩
  | angled text =>
    cases hnext
    exact .inl ⟨rfl, _, _, _, rfl, h.extend fun us hus => hus.push (.name (.angled text))⟩
  | literal quote text =>
    cases hnext
    refine .inl ⟨rfl, _, _, _, rfl, h.extend fun us hus => hus.push ?_⟩
    by_cases hempty : text = ""
    · subst hempty
      exact .emptyLiteral quote
    · rw [String.isEmpty_eq_false_iff.mpr hempty]
      exact .literal quote hempty
  | define long => cases hnext
  | terminator mark =>
    cases h with
    | base h =>
      cases hnext
      exact .inr ⟨mark, _, rfl, rfl, rfl, h.isExpression⟩
    | nest => cases hnext
  | bar =>
    cases hnext
    exact .inl ⟨rfl, _, _, _, rfl, h.extend fun us hus => hus.bar⟩
  | plus =>
    obtain ⟨terms, factors⟩ := frame
    cases repeated with
    | false => cases hnext
    | true =>
      cases factors with
      | nil => cases hnext
      | cons last factors =>
        cases last with
        | repetition inner =>
          cases hnext
          exact .inl ⟨rfl, _, _, _, rfl, h.extend fun us hus => hus.plus⟩
        | _ => cases hnext
  | opening bracket =>
    cases hnext
    exact .inl ⟨rfl, _, _, _, rfl, .nest bracket h .empty⟩
  | closing bracket =>
    cases h with
    | base => cases hnext
    | nest opened h h' =>
      rw [State.next] at hnext
      simp only at hnext
      split at hnext
      · rename_i heq
        subst heq
        cases hnext
        refine .inl ⟨rfl, _, _, _, rfl, ?_⟩
        rw [List.append_assoc]
        exact h.extend fun us hus => hus.close opened h'
      · cases hnext

/-- **One token:** what it makes of the reader, or the production that it completes. -/
theorem State.Reads.next {state state' : State} {us : List Token} {t : Token}
    {p? : Option Production} (h : state.Reads us) (hnext : state.next t = some (state', p?)) :
    (p? = none ∧ state'.Reads (us ++ [t])) ∨
      ∃ p, p? = some p ∧ state' = .between ∧ IsProduction (us ++ [t]) p := by
  cases h with
  | between =>
    cases t with
    | name text =>
      cases hnext
      exact .inl ⟨rfl, .named (.plain text)⟩
    | angled text =>
      cases hnext
      exact .inl ⟨rfl, .named (.angled text)⟩
    | _ => cases hnext
  | named h =>
    cases t with
    | define long =>
      cases hnext
      exact .inl ⟨rfl, .body h long (.base .empty)⟩
    | _ => cases hnext
  | body h long h' =>
    rcases h'.next hnext with
      ⟨rfl, outer, frame, repeated, rfl, hopen⟩ | ⟨mark, e, rfl, rfl, rfl, he⟩
    · exact .inl ⟨rfl, .body h long hopen⟩
    · exact .inr ⟨_, rfl, rfl, .intro h long he mark⟩

/-- **What is read is derived.** -/
theorem State.Reads.isGrammar {state : State} {us ts : List Token} {ps : List Production}
    (h : state.Reads us) (hfeed : state.feed ts = some (.between, ps)) :
    IsGrammar (us ++ ts) ps := by
  induction ts generalizing state us ps with
  | nil =>
    cases hfeed
    cases h
    exact .nil
  | cons t ts ih =>
    rw [State.feed] at hfeed
    cases hnext : state.next t with
    | none =>
      rw [hnext] at hfeed
      cases hfeed
    | some out =>
      obtain ⟨after, p?⟩ := out
      rw [hnext] at hfeed
      obtain ⟨⟨last, qs⟩, hrest, heq⟩ := Option.map_eq_some_iff.mp hfeed
      cases heq
      rw [List.append_cons]
      rcases h.next hnext with ⟨rfl, hafter⟩ | ⟨p, rfl, rfl, hp⟩
      · exact ih hafter hrest
      · exact .cons hp (ih .between hrest)

/-! ## 3. Grammars as texts -/

/-- **The productions of a text** are those of the derivation of its tokens. -/
theorem parseChars_eq_ok {s : List Char} {ps : List Production} :
    parseChars s = .ok ps ↔ ∃ ts, Scans s ts ∧ IsGrammar ts ps := by
  rw [parseChars, State.run_eq_ok]
  constructor
  · rintro ⟨hend, qs, hfeed, rfl⟩
    exact ⟨_, ⟨hend, rfl⟩, State.Reads.between.isGrammar hfeed⟩
  · rintro ⟨ts, ⟨hend, rfl⟩, hgrammar⟩
    exact ⟨hend, ps, hgrammar.feed, rfl⟩

theorem parse_eq_ok {text : String} {ps : List Production} :
    parse text = .ok ps ↔ parseChars text.toList = .ok ps := by
  rw [parse]
  cases parseChars text.toList <;> simp [Except.mapError]

/-- **The reader accepts exactly the notation.**  A text has productions if it can be cut into
tokens, each of them as long as it can be, and these derive from the grammar of the notation; the
productions are then those of the derivation.

Neither side mentions the other: cutting and deriving are relations without a scanner and without a
stack.  That a text has productions in one way at most is a consequence, and so is that nothing but
whole texts are read. -/
theorem parse_iff_derives (text : String) (ps : List Production) :
    parse text = .ok ps ↔ ∃ ts, Splits text.toList ts ∧ IsGrammar ts ps := by
  rw [parse_eq_ok, parseChars_eq_ok]
  simp only [splits_iff_scans]

end Railroad.Ebnf
