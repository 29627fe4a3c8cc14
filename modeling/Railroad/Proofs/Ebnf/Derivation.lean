/-
# Derivations

The grammar of the notation as relations between tokens and what they stand for, one for each rule
(`IsFactor` .. `IsGrammar`): a term without factors is the empty word, a single factor or term
stands for itself, parentheses leave nothing behind.

What is derived is read (`IsGrammar.feed`): the reader takes the tokens of a factor inside
whatever brackets and puts the factor at the end of the innermost frame, by induction on the
derivation.

The rules are named for the functions that read them: `grammar`, `production`, `expression`, `term`
and `factor`.  They are stated over tokens, so blanks and comments do not occur in them, and they
say nothing of a stack, of lookahead or of where reading stops.  Two of them are less regular than
they look: a repetition becomes one-or-more by a plus *behind* its bracket, so the reader must
remember that a repetition has just been closed (the `repeated` of `State.body`); and an expression
is never empty as a list of terms, though a term may be.

The four lemmas about taking tokens (`IsFactor.takes` to `IsExpression.takes`) are one mutual
induction along the derivation.  Each is stated for any stack of open brackets, because the
induction goes into brackets.
-/
import Railroad.Ebnf.Parser
import Railroad.Proofs.Expr.Flat

namespace Railroad.Ebnf

/-! ## 1. Derivations -/

/-- What some factors stand for together. -/
def termOf : List Expr → Expr
  | [] => .empty
  | factors => .join .sequence factors

theorem termOf_of_ne_nil {factors : List Expr} (h : factors ≠ []) :
    termOf factors = .join .sequence factors := by
  cases factors with
  | nil => exact absurd rfl h
  | cons => rfl

/-- A name, plain or in angle brackets. -/
inductive IsName : Token → String → Prop where
  | plain (text : String) : IsName (.name text) text
  | angled (text : String) : IsName (.angled text) text

mutual

/-- `factor = name | literal | "(" expression ")" | "[" expression "]" | "{" expression "}" ["+"]` -/
inductive IsFactor : List Token → Expr → Prop where
  | name {t : Token} {text : String} (h : IsName t text) : IsFactor [t] (.identifier ⟨text, {}⟩)
  | literal (quote : Char) {text : String} (h : text ≠ "") :
    IsFactor [.literal quote text] (.literal ⟨text, {}⟩)
  | emptyLiteral (quote : Char) : IsFactor [.literal quote ""] .empty
  | group {ts : List Token} {e : Expr} (h : IsExpression ts e) :
    IsFactor (.opening .round :: ts ++ [.closing .round]) e
  | option {ts : List Token} {e : Expr} (h : IsExpression ts e) :
    IsFactor (.opening .square :: ts ++ [.closing .square]) (.optional e)
  | repetition {ts : List Token} {e : Expr} (h : IsExpression ts e) :
    IsFactor (.opening .curly :: ts ++ [.closing .curly]) (.repetition e)
  | atLeastOnce {ts : List Token} {e : Expr} (h : IsExpression ts e) :
    IsFactor (.opening .curly :: ts ++ [.closing .curly, .plus]) (.oneOrMore e)

/-- `term = { factor }` -/
inductive IsFactors : List Token → List Expr → Prop where
  | nil : IsFactors [] []
  | cons {ts us : List Token} {e : Expr} {es : List Expr} (first : IsFactor ts e)
    (rest : IsFactors us es) : IsFactors (ts ++ us) (e :: es)

/-- `expression = term { "|" term }` -/
inductive IsTerms : List Token → List Expr → Prop where
  | last {ts : List Token} {es : List Expr} (h : IsFactors ts es) : IsTerms ts [termOf es]
  | cons {ts us : List Token} {es terms : List Expr} (first : IsFactors ts es)
    (rest : IsTerms us terms) : IsTerms (ts ++ .bar :: us) (termOf es :: terms)

/-- An expression is the alternation of its terms. -/
inductive IsExpression : List Token → Expr → Prop where
  | terms {ts : List Token} {es : List Expr} (h : IsTerms ts es) :
    IsExpression ts (.join .alternation es)

end

/-- `production = name ( "=" | "::=" ) expression ( "." | ";" )` -/
inductive IsProduction : List Token → Production → Prop where
  | intro {name : Token} {text : String} {ts : List Token} {e : Expr} (h : IsName name text)
    (long : Bool) (body : IsExpression ts e) (mark : Char) :
    IsProduction (name :: .define long :: ts ++ [.terminator mark]) ⟨text, e⟩

/-- `grammar = { production }` -/
inductive IsGrammar : List Token → List Production → Prop where
  | nil : IsGrammar [] []
  | cons {ts us : List Token} {p : Production} {ps : List Production} (first : IsProduction ts p)
    (rest : IsGrammar us ps) : IsGrammar (ts ++ us) (p :: ps)

theorem IsFactors.append : ∀ {ts us : List Token} {es fs : List Expr}, IsFactors ts es →
    IsFactors us fs → IsFactors (ts ++ us) (es ++ fs)
  | _, _, _, _, .nil, h' => h'
  | _, _, _, _, .cons first rest, h' => by
    rw [List.append_assoc]
    exact .cons first (rest.append h')

theorem IsTerms.append : ∀ {ts us : List Token} {es fs : List Expr}, IsTerms ts es →
    IsTerms us fs → IsTerms (ts ++ .bar :: us) (es ++ fs)
  | _, _, _, _, .last first, h' => .cons first h'
  | _, _, _, _, .cons first rest, h' => by
    rw [List.append_assoc]
    exact .cons first (rest.append h')

theorem IsGrammar.append {ts us : List Token} {ps qs : List Production} (h : IsGrammar ts ps)
    (h' : IsGrammar us qs) : IsGrammar (ts ++ us) (ps ++ qs) := by
  induction h with
  | nil => exact h'
  | cons first _ ih =>
    rw [List.append_assoc]
    exact .cons first ih

/-! ## 2. Feeding tokens to the reader -/

namespace State

/-- The reader after some tokens, and the productions that they complete. -/
def feed (state : State) : List Token → Option (State × List Production)
  | [] => some (state, [])
  | t :: ts =>
    match state.next t with
    | none => none
    | some (state, p?) => (state.feed ts).map fun (state, ps) => (state, p?.toList ++ ps)

theorem feed_append {state : State} {ts us : List Token} :
    state.feed (ts ++ us) = (state.feed ts).bind fun (state, ps) =>
      (state.feed us).map fun (state, qs) => (state, ps ++ qs) := by
  induction ts generalizing state with
  | nil => simp [feed]
  | cons t ts ih =>
    rw [List.cons_append, feed, feed]
    cases state.next t with
    | none => rfl
    | some out =>
      obtain ⟨state, p?⟩ := out
      simp only [ih]
      cases state.feed ts with
      | none => rfl
      | some mid =>
        simp only [Option.bind_some, Option.map_some, Option.map_map]
        congr 1
        funext x
        simp

theorem feed_singleton (state : State) (t : Token) :
    state.feed [t] = (state.next t).map fun (state, p?) => (state, p?.toList) := by
  rw [feed]
  cases state.next t with
  | none => rfl
  | some out => simp [feed]

theorem atEnd_eq_ok {state : State} {done ps : List Production} {ending : Ending} :
    state.atEnd done ending = .ok ps ↔
      ending = .stop [] ∧ state = .between ∧ ps = done.reverse := by
  cases ending with
  | stop rest =>
    cases rest <;> cases state <;> simp [atEnd, eq_comm]
  | openComment rest => simp [atEnd]
  | openToken code start rest =>
    rw [atEnd]
    split <;> simp

/-- The tokens of a grammar bring the reader to where a production may begin. -/
theorem run_eq_ok {state : State} {done ps : List Production} {ending : Ending}
    {lexemes : List Lexeme} : state.run done ending lexemes = .ok ps ↔
      ending = .stop [] ∧ ∃ qs, state.feed (lexemes.map (·.token)) = some (.between, qs) ∧
        ps = done.reverse ++ qs := by
  induction lexemes generalizing state done with
  | nil =>
    rw [run, atEnd_eq_ok, List.map_nil, feed]
    constructor
    · rintro ⟨hend, rfl, rfl⟩
      exact ⟨hend, [], rfl, (List.append_nil _).symm⟩
    · rintro ⟨hend, qs, hfeed, rfl⟩
      cases hfeed
      exact ⟨hend, rfl, List.append_nil _⟩
  | cons lexeme lexemes ih =>
    rw [run, List.map_cons, feed]
    cases state.next lexeme.token with
    | none => simp
    | some out =>
      obtain ⟨after, p?⟩ := out
      simp only [ih, List.reverse_append, List.append_assoc, Option.map_eq_some_iff, Prod.exists,
        Prod.mk.injEq]
      constructor
      · rintro ⟨hend, qs, hfeed, rfl⟩
        refine ⟨hend, _, ⟨_, _, hfeed, rfl, rfl⟩, ?_⟩
        cases p? <;> rfl
      · rintro ⟨hend, _, ⟨_, qs, hfeed, rfl, rfl⟩, rfl⟩
        refine ⟨hend, qs, hfeed, ?_⟩
        cases p? <;> rfl

/-- The reader takes some tokens without completing a production. -/
def Takes (state : State) (ts : List Token) (state' : State) : Prop :=
  state.feed ts = some (state', [])

theorem Takes.append {a b c : State} {ts us : List Token} (h : a.Takes ts b) (h' : b.Takes us c) :
    a.Takes (ts ++ us) c := by
  rw [Takes, feed_append, h, Option.bind_some]
  show (b.feed us).map _ = _
  rw [h']
  rfl

theorem Takes.single {a b : State} {t : Token} (h : a.next t = some (b, none)) : a.Takes [t] b := by
  rw [Takes, feed_singleton, h]
  rfl

theorem Takes.cons {a b c : State} {t : Token} {ts : List Token} (h : a.next t = some (b, none))
    (h' : b.Takes ts c) : a.Takes (t :: ts) c :=
  (Takes.single h).append h'

end State

/-! ## 3. What is derived is read -/

namespace Frame

theorem term_eq (frame : Frame) : frame.term = termOf frame.factors.reverse := by
  obtain ⟨terms, factors⟩ := frame
  match factors with
  | [] => rfl
  | [_] => rfl
  | a :: b :: rest =>
    rw [termOf_of_ne_nil (by simp), Expr.join_of_length_ne_one (by simp)]
    rfl

theorem expr_eq (frame : Frame) :
    frame.expr = .join .alternation (frame.terms.reverse ++ [frame.term]) := by
  obtain ⟨terms, factors⟩ := frame
  match terms with
  | [] => rfl
  | a :: rest =>
    rw [Expr.join_of_length_ne_one (by simp), ← List.reverse_cons]
    rfl

/-- The frame with some more factors. -/
def pushAll (frame : Frame) (factors : List Expr) : Frame :=
  { frame with factors := factors.reverse ++ frame.factors }

end Frame

mutual

/-- **A factor is read as one,** inside whatever brackets. -/
theorem IsFactor.takes : ∀ {ts : List Token} {e : Expr}, IsFactor ts e → ∀ (name : String)
    (outer : List (Bracket × Frame)) (frame : Frame) (repeated : Bool), ∃ repeated',
    (State.body name outer frame repeated).Takes ts (.body name outer (frame.push e) repeated')
  | _, _, .name (.plain text), _, _, _, _ => ⟨false, rfl⟩
  | _, _, .name (.angled text), _, _, _, _ => ⟨false, rfl⟩
  | _, _, .literal quote hne, name, outer, frame, repeated => by
    refine ⟨false, State.Takes.single ?_⟩
    have hempty : _ = false := String.isEmpty_eq_false_iff.mpr hne
    rw [State.next]
    simp [hempty]
  | _, _, .emptyLiteral quote, _, _, _, _ => ⟨false, rfl⟩
  | _, _, .group h, name, outer, frame, repeated => by
    obtain ⟨inner, r, hbody, rfl⟩ := h.takes name ((.round, frame) :: outer)
    refine ⟨false, State.Takes.cons rfl (hbody.append (State.Takes.single ?_))⟩
    rfl
  | _, _, .option h, name, outer, frame, repeated => by
    obtain ⟨inner, r, hbody, rfl⟩ := h.takes name ((.square, frame) :: outer)
    exact ⟨false, State.Takes.cons rfl (hbody.append (State.Takes.single rfl))⟩
  | _, _, .repetition h, name, outer, frame, repeated => by
    obtain ⟨inner, r, hbody, rfl⟩ := h.takes name ((.curly, frame) :: outer)
    exact ⟨true, State.Takes.cons rfl (hbody.append (State.Takes.single rfl))⟩
  | _, _, .atLeastOnce h, name, outer, frame, repeated => by
    obtain ⟨inner, r, hbody, rfl⟩ := h.takes name ((.curly, frame) :: outer)
    have hplus : (State.body name outer (frame.push (.repetition inner.expr)) true).Takes [.plus]
        (.body name outer (frame.push (.oneOrMore inner.expr)) false) := State.Takes.single rfl
    exact ⟨false, State.Takes.cons rfl (hbody.append (State.Takes.cons rfl hplus))⟩

/-- Factors are read one after the other. -/
theorem IsFactors.takes : ∀ {ts : List Token} {es : List Expr}, IsFactors ts es → ∀ (name : String)
    (outer : List (Bracket × Frame)) (frame : Frame) (repeated : Bool), ∃ repeated',
    (State.body name outer frame repeated).Takes ts (.body name outer (frame.pushAll es) repeated')
  | _, _, .nil, _, _, _, repeated => ⟨repeated, rfl⟩
  | _, _, .cons first rest, name, outer, frame, repeated => by
    obtain ⟨r₁, h₁⟩ := first.takes name outer frame repeated
    obtain ⟨r₂, h₂⟩ := rest.takes name outer (frame.push _) r₁
    refine ⟨r₂, ?_⟩
    have h := h₁.append h₂
    simpa [Frame.pushAll, Frame.push] using h

/-- Terms are read one after the other, behind those that are there. -/
theorem IsTerms.takes : ∀ {ts : List Token} {terms : List Expr}, IsTerms ts terms →
    ∀ (name : String) (outer : List (Bracket × Frame)) (before : List Expr) (repeated : Bool),
    ∃ frame repeated', (State.body name outer ⟨before, []⟩ repeated).Takes ts
        (.body name outer frame repeated') ∧
      frame.terms.reverse ++ [frame.term] = before.reverse ++ terms
  | _, _, .last h, name, outer, before, repeated => by
    obtain ⟨r, h⟩ := h.takes name outer ⟨before, []⟩ repeated
    refine ⟨_, r, h, ?_⟩
    rw [Frame.term_eq]
    simp [Frame.pushAll]
  | _, _, .cons first rest, name, outer, before, repeated => by
    obtain ⟨r₁, h₁⟩ := first.takes name outer ⟨before, []⟩ repeated
    obtain ⟨frame, r₂, h₂, hterms⟩ := rest.takes name outer _ false
    refine ⟨frame, r₂, h₁.append (State.Takes.cons rfl h₂), ?_⟩
    rw [hterms, Frame.term_eq]
    simp [Frame.pushAll]

/-- **An expression is read as one,** from an empty frame on. -/
theorem IsExpression.takes : ∀ {ts : List Token} {e : Expr}, IsExpression ts e → ∀ (name : String)
    (outer : List (Bracket × Frame)), ∃ frame repeated,
    (State.body name outer {} false).Takes ts (.body name outer frame repeated) ∧ frame.expr = e
  | _, _, .terms h, name, outer => by
    obtain ⟨frame, r, h, hterms⟩ := h.takes name outer [] false
    refine ⟨frame, r, h, ?_⟩
    rw [Frame.expr_eq, hterms]
    rfl

end

/-- **A production is read as one.** -/
theorem IsProduction.feed {ts : List Token} {p : Production} (h : IsProduction ts p) :
    State.between.feed ts = some (.between, [p]) := by
  cases h with
  | @intro name text ts e h long body mark =>
    obtain ⟨frame, repeated, hbody, rfl⟩ := body.takes text []
    have hname : State.between.next name = some (.named text, none) := by
      cases h <;> rfl
    have hstart : State.between.Takes (name :: .define long :: ts) (.body text [] frame repeated) :=
      State.Takes.cons hname (State.Takes.cons rfl hbody)
    have hend : (State.body text [] frame repeated).feed [.terminator mark]
        = some (.between, [⟨text, frame.expr⟩]) := rfl
    rw [State.feed_append, hstart, Option.bind_some]
    show ((State.body text [] frame repeated).feed [.terminator mark]).map _ = _
    rw [hend]
    rfl

/-- **A grammar is read as one.** -/
theorem IsGrammar.feed {ts : List Token} {ps : List Production} (h : IsGrammar ts ps) :
    State.between.feed ts = some (.between, ps) := by
  induction h with
  | nil => rfl
  | cons first rest ih =>
    rw [State.feed_append, first.feed, Option.bind_some]
    show (State.between.feed _).map _ = _
    rw [ih]
    rfl

end Railroad.Ebnf
