/-
# What stands before a mistake

A mistake is reported where the text cannot go on as it does.  All that stands before that place
can still become a grammar: a token or a comment that breaks off there can be completed, then the
open brackets are closed and the production is ended (`State.closing`).

The scanner has read what stands before the place as stretches, blanks and tokens.  It reads them in
the same way when something else follows, if that begins like what followed or with a line break
(`GoesOnLike`): such a text neither lengthens a name or a line comment nor makes a parenthesis open a
comment.  So the reader comes to the mistake in the same state, and from every state there is an end
(`State.Fails.endsBefore`).

The proof that a mistake has an end before it is an induction on how the mistake came about
(`State.Fails`), and has one case for each rule of that relation.  Where the text stops, or where a
token is refused, nothing has been begun, and what closes the state is put behind the blanks
(`State.endsBefore_unskipped`).  Where a comment or a token breaks off, the closing half of it comes
first (`State.endsBefore_openComment`, `State.endsBefore_openToken`).  A token that was taken is
carried along (`State.EndsBefore.token`): it is taken off the new text as well, since that goes on
behind it like the old one.

The completion begins with a line break for two reasons: it ends a line comment that the text may
stop in, and it keeps a name at the end of the text apart from the name that the completion may
begin with.  Nothing is said about how short the completion is, only that there is one; and since
what is completed is read by `parse` itself, the theorem needs no second account of what a grammar
is.
-/
import Railroad.Proofs.Ebnf.Mistakes

namespace Railroad.Ebnf

/-! ## 1. Texts that go on alike -/

/-- **A text goes on like another one** if it begins with the same character, or with a line break,
or if it is empty.  A line break is always allowed because no token and no comment to the end of a
line goes on behind one. -/
def GoesOnLike (s s' : List Char) : Prop := ∀ c ∈ s'.head?, c = '\n' ∨ s.head? = some c

namespace GoesOnLike

variable {s s' w : List Char}

theorem lineBreak : GoesOnLike s ('\n' :: s') := by
  intro c hc
  exact .inl (Option.some.inj hc).symm

theorem append (h : GoesOnLike s s') (w : List Char) : GoesOnLike (w ++ s) (w ++ s') := by
  cases w with
  | nil => exact h
  | cons c w => exact fun d hd => .inr hd

/-- Texts that begin with the same stretch go on alike, whatever follows it. -/
theorem of_ne_nil (hw : w ≠ []) : GoesOnLike (w ++ s) (w ++ s') := by
  cases w with
  | nil => exact absurd rfl hw
  | cons c w => exact fun d hd => .inr hd

/-- What is apart from a text is apart from each that goes on like it. -/
theorem apart (h : GoesOnLike s s') {t : Token} (hapart : t.Apart s) : t.Apart s' := by
  unfold Token.Apart at hapart ⊢
  split at hapart
  · intro c hc
    rcases h c hc with rfl | hs
    · decide
    · exact hapart c hs
  · intro hstar
    rcases h '*' hstar with hc | hs
    · exact absurd hc (by decide)
    · exact hapart hs
  · trivial

/-- What ends a line comment ends it in each text that goes on alike. -/
theorem notInLine (h : GoesOnLike s s') (hs : ∀ c ∈ s.head?, isInLine c = false) :
    ∀ c ∈ s'.head?, isInLine c = false := by
  intro c hc
  rcases h c hc with rfl | hs'
  · decide
  · exact hs c hs'

end GoesOnLike

/-! ## 2. Blanks and comments -/

/-- **The blanks and comments at the start of a text are skipped** before each text that goes on like
what follows them. -/
theorem exists_skipped (s : List Char) : ∃ w, s = w ++ unskipped (skipBlanks s) ∧
    ∀ s', GoesOnLike (unskipped (skipBlanks s)) s' → skipBlanks (w ++ s') = skipBlanks s' := by
  fun_induction skipBlanks s with
  | case1 => exact ⟨[], rfl, fun _ _ => rfl⟩
  | case2 r after hafter ih =>
    obtain ⟨w, hw, hskip⟩ := ih
    obtain ⟨body, rfl, hopen⟩ := spells_of_afterBlock? hafter
    refine ⟨'(' :: '*' :: (body ++ ['*', ')']) ++ w, ?_, fun s' hs' => ?_⟩
    · simpa using hw
    · rw [List.append_assoc, skipBlanks_block hopen, hskip s' hs']
  | case3 r hafter => exact ⟨[], rfl, fun _ _ => rfl⟩
  | case4 r ih =>
    obtain ⟨w, hw, hskip⟩ := ih
    have hinLine : ∀ c ∈ r.takeWhile isInLine, c ≠ '\n' ∧ c ≠ '\r' := fun c hc =>
      isInLine_iff.mp (List.mem_takeWhile_imp hc)
    refine ⟨'/' :: '/' :: r.takeWhile isInLine ++ w, ?_, fun s' hs' => ?_⟩
    · rw [List.append_assoc, ← hw, List.cons_append, List.cons_append,
        List.takeWhile_append_dropWhile]
    · have hends : ∀ c ∈ (r.dropWhile isInLine).head?, isInLine c = false := by
        intro c hc
        have hnot := List.head?_dropWhile_not isInLine r
        rw [hc] at hnot
        simpa using hnot
      rw [hw] at hends
      rw [List.append_assoc, skipBlanks_line hinLine ((hs'.append w).notInLine hends), hskip s' hs']
  | case5 c r _ _ hblank ih =>
    obtain ⟨w, hw, hskip⟩ := ih
    refine ⟨c :: w, ?_, fun s' hs' => ?_⟩
    · rw [List.cons_append, ← hw]
    · rw [List.cons_append, skipBlanks_space hblank, hskip s' hs']
  | case6 => exact ⟨[], rfl, fun _ _ => rfl⟩

/-! ## 3. Tokens -/

/-- A token that is read is apart from what follows it, unless that makes a comment. -/
theorem apart_of_piece {s rest : List Char} {t : Token} (h : piece s = .token t rest)
    (hcomment : ¬ ['(', '*'] <+: s) : t.Apart rest := by
  unfold piece at h
  split at h
  case h_2 | h_3 =>
    unfold literalPiece at h
    split at h
    · split at h <;> cases h
      trivial
    · cases h
  case h_4 =>
    unfold angledPiece at h
    split at h <;> cases h
    trivial
  case h_11 =>
    cases h
    intro hstar
    obtain ⟨tail, rfl⟩ := List.head?_eq_some_iff.mp hstar
    exact hcomment ⟨tail, rfl⟩
  case h_17 c r _ _ _ _ _ _ _ _ _ _ _ _ _ _ _ =>
    split at h
    · cases h
      intro d hd
      have hnot := List.head?_dropWhile_not isNamePart r
      rw [hd] at hnot
      simpa using hnot
    · cases h
  all_goals cases h
  all_goals trivial

/-- **A token that breaks off can be completed:** behind the stretch `w` of it `close` is missing, and
then it is a token that is taken wherever it may break off. -/
structure BreaksOff (code : Code) (w close : List Char) (t : Token) : Prop where
  begun : w ≠ []
  spells : Spells (w ++ close) (some t)
  apart : ∀ rest, t.Apart rest
  taken : ∀ state : State, state.awaits code = true → ∃ state', state.next t = some (state', none)

/-- **What is opened and breaks off can be completed.**  A name in angle brackets may still be empty
where it breaks off, so a character is added. -/
theorem OpensToken.breaksOff {code : Code} {s rest : List Char} (h : OpensToken code s rest) :
    ∃ w close t, s = w ++ rest ∧ BreaksOff code w close t := by
  cases h with
  | @literal quote body _ mark inside breaks =>
    refine ⟨quote :: body, [quote], _, rfl, List.cons_ne_nil _ _, .literal mark inside,
      fun _ => trivial, fun state hstate => ?_⟩
    cases state with
    | between | named _ => cases hstate
    | body _ _ _ _ => exact ⟨_, rfl⟩
  | @name body _ inside breaks =>
    have hinside : ∀ c ∈ body ++ ['x'], c ≠ '>' ∧ c ≠ '\n' :=
      List.forall_mem_append.mpr ⟨inside, List.forall_mem_singleton.mpr (by decide)⟩
    have hspells := Spells.angled (List.append_ne_nil_of_right_ne_nil body (by simp)) hinside
    rw [List.append_assoc] at hspells
    refine ⟨'<' :: body, ['x', '>'], _, rfl, List.cons_ne_nil _ _, hspells,
      fun _ => trivial, fun state hstate => ?_⟩
    cases state with
    | named _ => cases hstate
    | between | body _ _ _ _ => exact ⟨_, rfl⟩

/-! ## 4. Ends of a grammar -/

namespace State

/-- **A text ends a grammar** for a reader that is so far. -/
def Ends (state : State) (s : List Char) : Prop :=
  ∃ ts ps, Scans s ts ∧ state.feed ts = some (.between, ps)

theorem Ends.skip {state : State} {s s' : List Char} (h : state.Ends s')
    (hskip : skipBlanks s = skipBlanks s') : state.Ends s := by
  obtain ⟨ts, ps, hscans, hfeed⟩ := h
  exact ⟨ts, ps, hscans.skip hskip, hfeed⟩

theorem Ends.token {state state' : State} {w rest : List Char} {t : Token} {p? : Option Production}
    (h : state'.Ends rest) (hnext : state.next t = some (state', p?)) (hspells : Spells w (some t))
    (hapart : t.Apart rest) : state.Ends (w ++ rest) := by
  obtain ⟨ts, ps, hscans, hfeed⟩ := h
  refine ⟨t :: ts, p?.toList ++ ps, hscans.token hspells hapart, ?_⟩
  rw [feed, hnext]
  simp only [hfeed, Option.map_some]

/-- What is missing for the end of a grammar: a definition, closing brackets, the end of the
production. -/
def closing : State → List Char
  | .between => []
  | .named _ => ['=', '.']
  | .body _ outer _ _ => outer.map (·.1.right) ++ ['.']

theorem ends_between : State.between.Ends [] := ⟨[], [], .nil, rfl⟩

/-- All open brackets are closed, the innermost first. -/
theorem ends_body (name : String) (outer : List (Bracket × Frame)) : ∀ (frame : Frame)
    (repeated : Bool), (State.body name outer frame repeated).Ends
      (outer.map (·.1.right) ++ ['.']) := by
  induction outer with
  | nil => exact fun frame repeated => ends_between.token (w := ['.']) rfl (.mark rfl) trivial
  | cons opened outer ih =>
    obtain ⟨bracket, before⟩ := opened
    intro frame repeated
    have hnext : (State.body name ((bracket, before) :: outer) frame repeated).next
        (.closing bracket) = some (.body name outer (before.push (bracket.wrap frame.expr))
          (bracket == .curly), none) := by
      rw [next]
      simp only [if_true]
    refine (ih _ _).token (w := [bracket.right]) hnext (.mark ?_) trivial
    cases bracket <;> rfl

/-- **From every state there is an end,** behind a line break. -/
theorem ends_closing (state : State) : state.Ends ('\n' :: state.closing) := by
  have hclosing : state.Ends state.closing := by
    cases state with
    | between => exact ends_between
    | named name =>
      exact (ends_body name [] {} false).token (w := ['=']) (t := .define false) rfl (.mark rfl)
        trivial
    | body name outer frame repeated => exact ends_body name outer frame repeated
  exact hclosing.skip (skipBlanks_space rfl _)

/-! ## 5. Mistakes -/

/-- **The text can be ended in place of what is left of it,** for a reader that is so far.  The part
that stands before is kept, character for character. -/
def EndsBefore (state : State) (s left : List Char) : Prop :=
  ∃ before more, s = before ++ left ∧ GoesOnLike s (before ++ more) ∧ state.Ends (before ++ more)

/-- It can be ended behind the blanks and comments. -/
theorem endsBefore_unskipped (state : State) (s : List Char) :
    state.EndsBefore s (unskipped (skipBlanks s)) := by
  obtain ⟨w, hw, hskip⟩ := exists_skipped s
  refine ⟨w, '\n' :: state.closing, hw, ?_, state.ends_closing.skip (hskip _ .lineBreak)⟩
  have hlike : GoesOnLike (unskipped (skipBlanks s)) ('\n' :: state.closing) := .lineBreak
  exact (congrArg (GoesOnLike · _) hw).mpr (hlike.append w)

/-- It can be ended inside a comment that is never closed. -/
theorem endsBefore_openComment (state : State) {s rest : List Char}
    (hs : skipBlanks s = .error rest) : state.EndsBefore s rest := by
  obtain ⟨w, hw, hskip⟩ := exists_skipped s
  rw [hs, unskipped] at hw hskip
  have hopening : ['(', '*'] ≠ [] := List.cons_ne_nil _ _
  have hcomment : skipBlanks ('(' :: '*' :: ([] ++ ['*', ')']) ++ '\n' :: state.closing)
      = skipBlanks ('\n' :: state.closing) := skipBlanks_block (by simp)
  refine ⟨w ++ ['(', '*'], ['*', ')'] ++ '\n' :: state.closing, ?_, ?_, ?_⟩
  · rw [hw, List.append_assoc]
    rfl
  · rw [hw, List.append_assoc]
    exact (GoesOnLike.of_ne_nil (s := rest) hopening).append w
  · rw [List.append_assoc]
    exact (state.ends_closing.skip hcomment).skip (hskip _ (.of_ne_nil hopening))

/-- It can be ended inside a token that breaks off. -/
theorem endsBefore_openToken {state : State} {s source v rest close : List Char} {code : Code}
    {t : Token} (hs : skipBlanks s = .ok source) (hv : source = v ++ rest)
    (hbreaks : BreaksOff code v close t) (hawaits : state.awaits code = true) :
    state.EndsBefore s rest := by
  obtain ⟨w, hw, hskip⟩ := exists_skipped s
  rw [hs, unskipped, hv] at hw hskip
  obtain ⟨state', hnext⟩ := hbreaks.taken state hawaits
  refine ⟨w ++ v, close ++ '\n' :: state'.closing, ?_, ?_, ?_⟩
  · rw [hw, List.append_assoc]
  · rw [hw, List.append_assoc]
    exact (GoesOnLike.of_ne_nil hbreaks.begun).append w
  · have hends := state'.ends_closing.token hnext hbreaks.spells (hbreaks.apart _)
    rw [List.append_assoc] at hends ⊢
    exact hends.skip (hskip _ (.of_ne_nil hbreaks.begun))

/-- A token that is taken is part of what stands before. -/
theorem EndsBefore.token {state state' : State} {s source rest left : List Char} {t : Token}
    {p? : Option Production} (h : state'.EndsBefore rest left) (hs : skipBlanks s = .ok source)
    (hp : piece source = .token t rest) (hnext : state.next t = some (state', p?)) :
    state.EndsBefore s left := by
  obtain ⟨before, more, hrest, hlike, hends⟩ := h
  obtain ⟨w, hw, hskip⟩ := exists_skipped s
  rw [hs, unskipped] at hw hskip
  obtain ⟨v, hv, hspells⟩ := spells_of_piece hp
  have hapart := apart_of_piece hp (not_comment_of_skipBlanks hs)
  have htoken := hends.token hnext hspells (hlike.apart hapart)
  have hlikeToken : GoesOnLike source (v ++ (before ++ more)) := hv ▸ hlike.append v
  refine ⟨w ++ (v ++ before), more, ?_, ?_, ?_⟩
  · rw [hw, ← hv, hrest, List.append_assoc, List.append_assoc]
  · rw [hw, List.append_assoc, List.append_assoc]
    exact hlikeToken.append w
  · rw [List.append_assoc, List.append_assoc]
    exact htoken.skip (hskip _ hlikeToken)

/-- **What stands before a mistake can be ended,** wherever the reader is when the text begins. -/
theorem Fails.endsBefore {state : State} {s : List Char} {m : Mistake} (h : state.Fails s m) :
    state.EndsBefore s m.source := by
  have hblanks {state : State} {s source : List Char} (hs : skipBlanks s = .ok source) :
      state.EndsBefore s source := by
    have hunskipped := endsBefore_unskipped state s
    rwa [hs] at hunskipped
  induction h with
  | openComment wanted hs => exact endsBefore_openComment _ hs
  | stop hs | outOfPlace hs | refused hs => exact hblanks hs
  | breaksOff hs hopens hawaits =>
    obtain ⟨v, close, t, hv, hbreaks⟩ := hopens.breaksOff
    exact endsBefore_openToken hs hv hbreaks hawaits
  | onward hs hp hnext _ ih => exact ih.token hs hp hnext

end State

/-- What stands before a mistake is the beginning of a grammar. -/
theorem parseChars_error {s : List Char} {m : Mistake} (h : parseChars s = .error m) :
    ∃ before more ps, s = before ++ m.source ∧ parseChars (before ++ more) = .ok ps := by
  obtain ⟨before, more, hs, -, ts, ps, hscans, hfeed⟩ := (State.fails_of_run h).endsBefore
  have hgrammar := State.Reads.between.isGrammar hfeed
  exact ⟨before, more, ps, hs, parseChars_eq_ok.mpr ⟨ts, hscans, hgrammar⟩⟩

/-- The label of a diagnostic begins where the mistake shows. -/
theorem Mistake.exists_label (before : List Char) (m : Mistake) :
    ∃ label, (m.toDiagnostic (before ++ m.source)).labels = [label] ∧
      label.span.start = byteLength before := by
  obtain ⟨message, hlabels⟩ := m.labels_eq before
  exact ⟨_, hlabels, rfl⟩

/-- **The place of a mistake is an honest one:** everything before it can still become a grammar.  A
text that is refused is refused with one diagnostic, which has one label, and the text up to the
place where that begins can be continued so that it is read.

So a place that is too late would be noticed here: nothing could mend what stands before it. -/
theorem parse_error_completes {text : String} {e : ParseError} (h : parse text = .error e) :
    ∃ d label before after, e.diagnostics = [d] ∧ d.labels = [label] ∧ text = before ++ after ∧
      before.utf8ByteSize = label.span.start ∧
      ∃ more ps, parse (before ++ more) = .ok ps := by
  rw [parse] at h
  cases hchars : parseChars text.toList with
  | ok ps =>
    rw [hchars] at h
    cases h
  | error m =>
    rw [hchars] at h
    cases h
    obtain ⟨before, more, ps, hs, hparse⟩ := parseChars_error hchars
    obtain ⟨label, hlabel, hstart⟩ := Mistake.exists_label before m
    rw [← hs] at hlabel
    refine ⟨_, label, String.ofList before, String.ofList m.source, rfl, hlabel, ?_, ?_,
      String.ofList more, ps, ?_⟩
    · rw [← String.ofList_append, ← hs, String.ofList_toList]
    · rw [hstart, byteLength_eq]
    · rw [parse_eq_ok, ← String.ofList_append, String.toList_ofList]
      exact hparse

/-- A comment that is never closed, in a group in a repetition: the text up to the opening of the
comment can be completed. -/
theorem parse_error_completes_openComment :
    ∃ e, parse "a = \x7b \"ä\" ( b | (* c" = .error e ∧
      ∃ d label before after, e.diagnostics = [d] ∧ d.labels = [label] ∧
        "a = \x7b \"ä\" ( b | (* c" = before ++ after ∧ before.utf8ByteSize = label.span.start ∧
        ∃ more ps, parse (before ++ more) = .ok ps := by
  have hparse : ∃ e, parse "a = \x7b \"ä\" ( b | (* c" = .error e := by
    have hrefused : (parse "a = \x7b \"ä\" ( b | (* c").isOk = false := by decide +kernel
    cases h : parse "a = \x7b \"ä\" ( b | (* c" with
    | error e => exact ⟨e, rfl⟩
    | ok ps =>
      rw [h] at hrefused
      cases hrefused
  obtain ⟨e, he⟩ := hparse
  exact ⟨e, he, parse_error_completes he⟩

end Railroad.Ebnf
