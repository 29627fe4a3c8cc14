/-
# Recursive descent and the stack

The reader is a function of one token and keeps the open brackets on a stack (`State.next`).  Read by
recursive descent the notation comes out the same: every text is a grammar of the same productions or is
refused with the same diagnostic (`parse_eq`).

What carries the proof is one statement for each parser, in which both are put next to each other on the
text that is left (`Meets`, with `resume` for the reader):

* where the parser is done, the reader comes to the same place, and what it has on its stack is the value
  of the parser on top of what was there before;
* where the parser is cut, the reader has a mistake at the same place and for the same reason
  (`FailsWith`);
* where a factor goes back, nothing stands there that the reader could push (`Idle`).

The reader takes a plus as soon as a repetition is closed, and a bar behind every term, while descent
settles these before the factor or the term returns.  So the statements also say that none of them comes
next (`Lacks`).

The rules inside brackets are deeper.  `factor_agrees` is an induction on how deep they may be, and each
list of factors, terms or productions is one on the length of the text.
-/
import Railroad.Proofs.Ebnf.Reader
import Railroad.Proofs.Ebnf.Replies

namespace Railroad.Ebnf.Descent

open Step

/-! ## 1. The reader on characters -/

/-- **The reader that is so far,** on the text that is left. -/
def resume (state : State) (done : List Production) (s : List Char) :
    Except Mistake (List Production) :=
  state.run done (scan s).2 (scan s).1

section

variable {state : State} {done : List Production} {s source rest : List Char}

theorem resume_openComment (hs : skipBlanks s = .error rest) :
    resume state done s = state.atEnd done (.openComment rest) := by
  rw [resume, scan_of_openComment hs]
  rfl

theorem resume_ending {e : Ending} (hs : skipBlanks s = .ok source)
    (hp : piece source = .ending e) : resume state done s = state.atEnd done e := by
  rw [resume, scan_of_ending hs hp]
  rfl

theorem resume_onward {t : Token} {after : State} (hs : skipBlanks s = .ok source)
    (hp : piece source = .token t rest) (hnext : state.next t = some (after, none)) :
    resume state done s = resume after done rest := by
  rw [resume, scan_of_token hs hp, State.run, hnext]
  rfl

theorem resume_completed {t : Token} {after : State} {p : Production}
    (hs : skipBlanks s = .ok source) (hp : piece source = .token t rest)
    (hnext : state.next t = some (after, some p)) :
    resume state done s = resume after (p :: done) rest := by
  rw [resume, scan_of_token hs hp, State.run, hnext]
  rfl

theorem resume_refused {t : Token} (hs : skipBlanks s = .ok source)
    (hp : piece source = .token t rest) (hnext : state.next t = none) :
    resume state done s = .error ⟨source, .unexpected state.wanted⟩ := by
  rw [resume, scan_of_token hs hp, State.run, hnext]

/-- A sign of one character is read exactly where it stands. -/
theorem piece_mark_iff {c : Char} {t : Token} (h : Token.ofMark? c = some t) :
    piece s = .token t rest ↔ s = c :: rest := by
  refine ⟨fun hp => ?_, fun hs => hs ▸ piece_mark h rest⟩
  obtain ⟨w, rfl, hw⟩ := spells_of_piece hp
  unfold Token.ofMark? at h
  split at h <;> cases h
  all_goals
    cases hw with
    | mark h' =>
      unfold Token.ofMark? at h'
      split at h' <;> cases h'
      rfl

end

/-- What was being read, by the cause of a mistake. -/
def contextsOf : Cause → List Context
  | .unexpected wanted => [.expected wanted]
  | .unterminated code none => [.unterminated code]
  | .unterminated code (some wanted) => [.unterminated code, .expected wanted]

/-- **Reading fails** with what is left of the text and what was being read. -/
def FailsWith (outcome : Except Mistake (List Production)) (rest : List Char)
    (contexts : List Context) : Prop :=
  ∃ cause, contexts = contextsOf cause ∧ outcome = .error ⟨rest, cause⟩

/-- A token that begins no factor. -/
def isSign : Token → Bool
  | .define _ | .terminator _ | .bar | .plus | .closing _ => true
  | _ => false

/-- **No factor begins here,** nor anything that breaks off. -/
def Idle (s : List Char) : Prop := ∃ source, skipBlanks s = .ok source ∧
  (piece source = .ending (.stop source) ∨ ∃ t rest, piece source = .token t rest ∧ isSign t = true)

/-- This token does not come next. -/
def Lacks (t : Token) (s : List Char) : Prop :=
  ∀ source rest, skipBlanks s = .ok source → piece source ≠ .token t rest

/-- **What a reply comes to:** it goes on, fails as the reader fails, or goes back.  The three cases
are those of `Reply`, each with what the reader on tokens has come to by then. -/
def Meets {α : Type} (outcome : Except Mistake (List Production)) (on : α → List Char → Prop)
    (gone : Prop) : Reply α → Prop
  | .done a rest => on a rest
  | .cut rest contexts => FailsWith outcome rest contexts
  | .back _ _ => gone

section

variable {α β : Type} {outcome : Except Mistake (List Production)} {on : α → List Char → Prop}
  {on' : β → List Char → Prop} {gone gone' : Prop} {reply : Reply α} {f : α → Step β}

theorem Meets.imp {on₂ : α → List Char → Prop} (h : Meets outcome on gone reply)
    (hon : ∀ a rest, on a rest → on₂ a rest) (hgone : gone → gone') :
    Meets outcome on₂ gone' reply := by
  cases reply with
  | done a rest => exact hon a rest h
  | back => exact hgone h
  | cut => exact h

theorem Meets.andThen (h : Meets outcome on gone reply) (hgone : gone → gone')
    (hf : ∀ a rest, on a rest → Meets outcome on' gone' (f a rest)) :
    Meets outcome on' gone' (reply.andThen f) := by
  cases reply with
  | done a rest => exact hf a rest h
  | back rest contexts => exact hgone h
  | cut rest contexts => exact h

end

/-- **A parser that is read as often as it can be.**  Each time the reader comes from one situation to the
next.  `Value` says which situation the values lead to, so it is all that has to be known of a single
time. -/
theorem Meets.many {α ι : Type} {p : Step α} {outcome : ι → List Char → Except Mistake (List Production)}
    {Inv Stop : ι → List Char → Prop} {Value : ι → List α → ι → Prop} (hnil : ∀ i, Value i [] i)
    (hp : ∀ i s, Inv i s → Meets (outcome i s)
      (fun a rest => rest.length < s.length ∧ ∃ j, Inv j rest ∧ outcome i s = outcome j rest ∧
        ∀ as k, Value j as k → Value i (a :: as) k)
      (Stop i s) (p s)) {i : ι} {s : List Char} (hs : Inv i s) :
    Meets (outcome i s)
      (fun as rest => rest.length ≤ s.length ∧ ∃ j, Inv j rest ∧ Stop j rest ∧ Value i as j ∧
        outcome i s = outcome j rest)
      False (Step.many p s) := by
  induction hn : s.length using Nat.strong_induction_on generalizing i s with
  | _ n ih =>
    have hfirst := hp i s hs
    cases hreply : p s with
    | back rest contexts =>
      rw [hreply] at hfirst
      rw [many_back hreply]
      exact ⟨hn.le, i, hs, hfirst, hnil i, rfl⟩
    | cut rest contexts =>
      rw [hreply] at hfirst
      rw [many_cut hreply]
      exact hfirst
    | done a rest =>
      rw [hreply] at hfirst
      obtain ⟨hlt, j, hj, hread, hvalue⟩ := hfirst
      rw [many_done hreply hlt, hread]
      refine (ih rest.length (hn ▸ hlt) hj rfl).andThen id ?_
      rintro as rest' ⟨hle, k, hk, hstop, has, hread'⟩
      exact ⟨by omega, k, hk, hstop, hvalue as k has, hread'⟩

/-! ## 2. A right-hand side -/

section

variable {name : String} {outer : List (Bracket × Frame)} {frame : Frame} {repeated : Bool}
  {done : List Production} {s : List Char} {bound : Nat} {factor : Step Expr}

/-- **Factors are read as the reader reads them,** on texts that are shorter than a bound.  The
bound is what the induction is on, since a bracket may hold any number of factors. -/
def Agrees (factor : Step Expr) (bound : Nat) : Prop :=
  ∀ s : List Char, s.length < bound → ∀ (name : String) (outer : List (Bracket × Frame))
    (frame : Frame) (repeated : Bool) (done : List Production), (repeated = true → Lacks .plus s) →
    Meets (resume (.body name outer frame repeated) done s)
      (fun e rest => rest.length < s.length ∧ ∃ repeated', (repeated' = true → Lacks .plus rest) ∧
        resume (.body name outer frame repeated) done s
          = resume (.body name outer (frame.push e) repeated') done rest)
      (Idle s) (factor s)

/-- The reader where factors may follow: what changes from one factor to the next is the frame, and
whether a repetition was just closed. -/
def FactorsAhead (bound : Nat) (now : Frame × Bool) (s : List Char) : Prop :=
  s.length < bound ∧ (now.2 = true → Lacks .plus s)

/-- Some factors lead from one frame to another. -/
def FactorsTaken (before : Frame × Bool) (es : List Expr) (after : Frame × Bool) : Prop :=
  after.1 = before.1.pushAll es

/-- **The factors of a term.** -/
theorem many_agrees (h : Agrees factor bound) (hs : s.length < bound)
    (hplus : repeated = true → Lacks .plus s) :
    Meets (resume (.body name outer frame repeated) done s)
      (fun es rest => rest.length ≤ s.length ∧ Idle rest ∧
        ∃ repeated', (repeated' = true → Lacks .plus rest) ∧
          resume (.body name outer frame repeated) done s
            = resume (.body name outer (frame.pushAll es) repeated') done rest)
      False (many factor s) := by
  have hone : ∀ (i : Frame × Bool) (s : List Char), FactorsAhead bound i s →
      Meets (resume (.body name outer i.1 i.2) done s)
        (fun e rest => rest.length < s.length ∧ ∃ j : Frame × Bool, FactorsAhead bound j rest ∧
          resume (.body name outer i.1 i.2) done s = resume (.body name outer j.1 j.2) done rest ∧
          ∀ es k, FactorsTaken j es k → FactorsTaken i (e :: es) k)
        (Idle s) (factor s) := by
    rintro ⟨frame, repeated⟩ s ⟨hs, hplus⟩
    refine (h s hs name outer frame repeated done hplus).imp ?_ id
    rintro e rest ⟨hlt, repeated', hplus', hread⟩
    refine ⟨hlt, (frame.push e, repeated'), ⟨hlt.trans hs, hplus'⟩, hread, ?_⟩
    rintro es ⟨_, r⟩ rfl
    show (frame.push e).pushAll es = frame.pushAll (e :: es)
    simp [Frame.pushAll, Frame.push]
  have hnil : ∀ i, FactorsTaken i [] i := fun _ => rfl
  have hi : FactorsAhead bound (frame, repeated) s := ⟨hs, hplus⟩
  refine (Meets.many hnil hone hi).imp ?_ id
  rintro es rest ⟨hle, ⟨_, repeated'⟩, ⟨-, hplus'⟩, hidle, rfl, hread⟩
  exact ⟨hle, hidle, repeated', hplus', hread⟩

/-- One more term, behind its bar. -/
def barred (factor : Step Expr) : Step Expr := do
  let _ ← (do
    ws
    char '|' : Step Unit)
  term factor

/-- A bar and a term: the reader goes on in a frame with the next term, or there is no bar. -/
theorem barred_agrees (h : Agrees factor bound) (hs : s.length < bound) (hidle : Idle s) :
    Meets (resume (.body name outer frame repeated) done s)
      (fun e rest => rest.length < s.length ∧ Idle rest ∧
        ∃ frame' repeated', (repeated' = true → Lacks .plus rest) ∧
          frame'.terms = frame.term :: frame.terms ∧ frame'.term = e ∧
          resume (.body name outer frame repeated) done s
            = resume (.body name outer frame' repeated') done rest)
      (Lacks .bar s) (barred factor s) := by
  obtain ⟨source, hsource, -⟩ := hidle
  have hws := ws_of_ok hsource
  by_cases hbar : ∃ after, source = '|' :: after
  · obtain ⟨after, rfl⟩ := hbar
    have hlt : after.length < s.length := skipBlanks_length hsource
    have hread : resume (.body name outer frame repeated) done s
        = resume (.body name outer frame.bar false) done after :=
      resume_onward hsource (piece_mark rfl after) rfl
    have hbarred : barred factor s = (many factor after).andThen fun es => pure (termOf es) := by
      simp only [barred, bind_apply, hws, andThen_done, char_cons, if_true, term]
    have hplus : false = true → Lacks .plus after := nofun
    rw [hbarred, hread]
    refine (many_agrees h (hlt.trans hs) hplus).andThen False.elim ?_
    rintro es rest ⟨hle, hidle, repeated', hplus', hread'⟩
    refine ⟨by omega, hidle, frame.bar.pushAll es, repeated', hplus', rfl, ?_, hread'⟩
    rw [Frame.term_eq]
    simp [Frame.pushAll, Frame.bar]
  · have hchar : char '|' source = .back source [] :=
      char_back fun rest hrest => hbar ⟨rest, hrest⟩
    have hback : barred factor s = .back source [] := by
      simp only [barred, bind_apply, hws, andThen_done, hchar, andThen_back]
    rw [hback]
    intro source' rest hsource' hp
    cases hsource.symm.trans hsource'
    exact hbar ⟨rest, (piece_mark_iff rfl).mp hp⟩

/-- The reader behind a term, where bars with more terms may follow. -/
def TermsAhead (bound : Nat) (now : Frame × Bool) (s : List Char) : Prop :=
  s.length < bound ∧ Idle s ∧ (now.2 = true → Lacks .plus s)

/-- Some more terms lead from one frame to another. -/
def TermsTaken (before : Frame × Bool) (others : List Expr) (after : Frame × Bool) : Prop :=
  after.1.terms.reverse ++ [after.1.term] = before.1.terms.reverse ++ before.1.term :: others

/-- **The terms behind the first.** -/
theorem many_barred_agrees (h : Agrees factor bound) (hs : s.length < bound) (hidle : Idle s)
    (hplus : repeated = true → Lacks .plus s) :
    Meets (resume (.body name outer frame repeated) done s)
      (fun others rest => rest.length ≤ s.length ∧ Idle rest ∧ Lacks .bar rest ∧
        ∃ frame' repeated', (repeated' = true → Lacks .plus rest) ∧
          frame'.terms.reverse ++ [frame'.term] = frame.terms.reverse ++ frame.term :: others ∧
          resume (.body name outer frame repeated) done s
            = resume (.body name outer frame' repeated') done rest)
      False (many (barred factor) s) := by
  have hone : ∀ (i : Frame × Bool) (s : List Char), TermsAhead bound i s →
      Meets (resume (.body name outer i.1 i.2) done s)
        (fun e rest => rest.length < s.length ∧ ∃ j : Frame × Bool, TermsAhead bound j rest ∧
          resume (.body name outer i.1 i.2) done s = resume (.body name outer j.1 j.2) done rest ∧
          ∀ others k, TermsTaken j others k → TermsTaken i (e :: others) k)
        (Lacks .bar s) (barred factor s) := by
    rintro ⟨frame, repeated⟩ s ⟨hs, hidle, -⟩
    refine (barred_agrees h hs hidle).imp ?_ id
    rintro e rest ⟨hlt, hidle', frame', repeated', hplus', hterms, rfl, hread⟩
    refine ⟨hlt, (frame', repeated'), ⟨hlt.trans hs, hidle', hplus'⟩, hread, fun others k hk => ?_⟩
    show k.1.terms.reverse ++ [k.1.term] = frame.terms.reverse ++ frame.term :: frame'.term :: others
    rw [show k.1.terms.reverse ++ [k.1.term] = _ from hk, hterms]
    simp
  have hnil : ∀ i, TermsTaken i [] i := fun _ => rfl
  have hi : TermsAhead bound (frame, repeated) s := ⟨hs, hidle, hplus⟩
  refine (Meets.many hnil hone hi).imp ?_ id
  rintro others rest ⟨hle, ⟨frame', repeated'⟩, ⟨-, hidle', hplus'⟩, hbar, hterms, hread⟩
  exact ⟨hle, hidle', hbar, frame', repeated', hplus', hterms, hread⟩

theorem expression_eq (s : List Char) : expression factor s =
    (many factor s).andThen fun es => do
      let others ← many (barred factor)
      return .join .alternation (termOf es :: others) := by
  show (((many factor s).andThen _).andThen _).andThen _ = _
  cases many factor s with
  | done es rest =>
    show ((many (barred factor) rest).andThen _).andThen _ = (many (barred factor) rest).andThen _
    cases many (barred factor) rest <;> rfl
  | back | cut => rfl

/-- **An expression.** -/
theorem expression_agrees (h : Agrees factor bound) (hs : s.length < bound) :
    Meets (resume (.body name outer {} false) done s)
      (fun e rest => rest.length ≤ s.length ∧ Idle rest ∧ Lacks .bar rest ∧
        ∃ frame repeated, (repeated = true → Lacks .plus rest) ∧ frame.expr = e ∧
          resume (.body name outer {} false) done s
            = resume (.body name outer frame repeated) done rest)
      False (expression factor s) := by
  rw [expression_eq]
  have hplus : false = true → Lacks .plus s := nofun
  refine (many_agrees h hs hplus).andThen id ?_
  rintro es rest ⟨hle, hidle, repeated, hplus, hread⟩
  rw [hread]
  refine (many_barred_agrees h (Nat.lt_of_le_of_lt hle hs) hidle hplus).andThen id ?_
  rintro others rest' ⟨hle', hidle', hbar, frame, repeated', hplus', hterms, hread'⟩
  refine ⟨by omega, hidle', hbar, frame, repeated', hplus', ?_, hread'⟩
  rw [Frame.expr_eq, hterms, Frame.term_eq]
  simp [Frame.pushAll]

/-- A sign that cannot come next is refused, and so is what begins no token. -/
theorem resume_idle {state : State} {source : List Char} (hidle : Idle s)
    (hsource : skipBlanks s = .ok source) (hstate : state ≠ .between)
    (hnext : ∀ t rest, piece source = .token t rest → isSign t = true → state.next t = none) :
    resume state done s = .error ⟨source, .unexpected state.wanted⟩ := by
  obtain ⟨source', hsource', hpiece⟩ := hidle
  cases hsource.symm.trans hsource'
  rcases hpiece with hstop | ⟨t, rest, htoken, hsign⟩
  · rw [resume_ending hsource hstop]
    cases source with
    | cons => rfl
    | nil => cases state <;> first | exact absurd rfl hstate | rfl
  · exact resume_refused hsource htoken (hnext t rest htoken hsign)

/-- In a right-hand side a sign is refused unless it closes the innermost bracket, ends the production
or goes on with a term. -/
theorem next_eq_none {t : Token} (hsign : isSign t = true) (hbar : t ≠ .bar)
    (hplus : repeated = true → t ≠ .plus)
    (hclosing : ∀ bracket before, outer.head? = some (bracket, before) → t ≠ .closing bracket)
    (hend : outer = [] → ∀ mark, t ≠ .terminator mark) :
    (State.body name outer frame repeated).next t = none := by
  cases t with
  | define => rfl
  | bar => exact absurd rfl hbar
  | plus =>
    cases repeated with
    | false => rfl
    | true => exact absurd rfl (hplus rfl)
  | terminator mark =>
    cases outer with
    | nil => exact absurd rfl (hend rfl mark)
    | cons => rfl
  | closing bracket =>
    cases outer with
    | nil => rfl
    | cons opened outer =>
      have hne : opened.1 ≠ bracket := fun h => hclosing _ _ rfl (h ▸ rfl)
      simp [State.next, hne]
  | name | angled | literal | opening => cases hsign

/-- **The end of a bracket.** -/
theorem closing_agrees (bracket : Bracket) {before : Frame} (hidle : Idle s) (hbar : Lacks .bar s)
    (hplus : repeated = true → Lacks .plus s) :
    Meets (resume (.body name ((bracket, before) :: outer) frame repeated) done s)
      (fun _ rest => rest.length ≤ s.length ∧
        resume (.body name ((bracket, before) :: outer) frame repeated) done s = resume
          (.body name outer (before.push (bracket.wrap frame.expr)) (bracket == .curly)) done rest)
      False (closing bracket s) := by
  obtain ⟨source, hsource, -⟩ := id hidle
  have hmark : Token.ofMark? bracket.right = some (.closing bracket) := by cases bracket <;> rfl
  by_cases hclosed : ∃ rest, source = bracket.right :: rest
  · obtain ⟨rest, rfl⟩ := hclosed
    have hreply : closing bracket s = .done () rest := demand_done hsource (by simp)
    rw [hreply]
    have hle := skipBlanks_length hsource
    refine ⟨by simp only [List.length_cons] at hle; omega, ?_⟩
    exact resume_onward hsource (piece_mark hmark rest) (by simp [State.next])
  · have hchar : char bracket.right source = .back source [] :=
      char_back fun rest hrest => hclosed ⟨rest, hrest⟩
    have hreply : closing bracket s = .cut source [.expected (.closing bracket)] :=
      demand_back hsource hchar
    rw [hreply]
    refine ⟨.unexpected (.closing bracket), rfl, resume_idle hidle hsource nofun ?_⟩
    intro t rest htoken hsign
    refine next_eq_none hsign ?_ ?_ ?_ nofun
    · rintro rfl
      exact hbar source rest hsource htoken
    · rintro hrepeated rfl
      exact hplus hrepeated source rest hsource htoken
    · rintro _ _ ⟨⟩ rfl
      exact hclosed ⟨rest, (piece_mark_iff hmark).mp htoken⟩

/-- A plus behind a repetition. -/
theorem plus_agrees {e : Expr} :
    Meets (resume (.body name outer (frame.push (.repetition e)) true) done s)
      (fun plus rest => rest.length ≤ s.length ∧ ∃ repeated',
        (repeated' = true → Lacks .plus rest) ∧
        resume (.body name outer (frame.push (.repetition e)) true) done s
          = resume (.body name outer
            (frame.push (if plus.isSome then .oneOrMore e else .repetition e)) repeated') done rest)
      False (opt (do
        ws
        char '+' : Step Unit) s) := by
  cases hskip : skipBlanks s with
  | error rest =>
    have hreply : opt (do
        ws
        char '+' : Step Unit) s = .cut rest [.unterminated .unterminatedComment] := by
      simp [opt, ws_of_error hskip]
    rw [hreply]
    exact ⟨.unterminated .unterminatedComment none, rfl, resume_openComment hskip⟩
  | ok source =>
    have hws := ws_of_ok hskip
    by_cases hplus : ∃ rest, source = '+' :: rest
    · obtain ⟨rest, rfl⟩ := hplus
      have hreply : opt (do
          ws
          char '+' : Step Unit) s = .done (some ()) rest := by
        simp [opt, hws]
      rw [hreply]
      have hle := skipBlanks_length hskip
      refine ⟨by simp only [List.length_cons] at hle; omega, false, ?_, ?_⟩
      · rintro ⟨⟩
      · exact resume_onward hskip (piece_mark rfl rest) rfl
    · have hchar : char '+' source = .back source [] :=
        char_back fun rest hrest => hplus ⟨rest, hrest⟩
      have hreply : opt (do
          ws
          char '+' : Step Unit) s = .done none s := by
        simp [opt, hws, hchar]
      rw [hreply]
      refine ⟨Nat.le_refl _, true, fun _ source' rest hsource' hp => ?_, rfl⟩
      cases hskip.symm.trans hsource'
      exact hplus ⟨rest, (piece_mark_iff rfl).mp hp⟩

/-- **A factor in brackets,** behind the opening one. -/
theorem inside_agrees (h : Agrees factor bound) (hs : s.length < bound) (bracket : Bracket) :
    Meets (resume (.body name ((bracket, frame) :: outer) {} false) done s)
      (fun e rest => rest.length ≤ s.length ∧ ∃ repeated', (repeated' = true → Lacks .plus rest) ∧
        resume (.body name ((bracket, frame) :: outer) {} false) done s
          = resume (.body name outer (frame.push e) repeated') done rest)
      False (inside factor bracket s) := by
  refine (expression_agrees h hs).andThen id ?_
  rintro e rest ⟨hle, hidle, hbar, inner, repeated, hplus, rfl, hread⟩
  rw [hread]
  refine (closing_agrees bracket hidle hbar hplus).andThen id ?_
  rintro _ rest' ⟨hle', hread'⟩
  rw [hread']
  cases bracket with
  | round => exact ⟨hle'.trans hle, false, nofun, rfl⟩
  | square => exact ⟨hle'.trans hle, false, nofun, rfl⟩
  | curly =>
    refine plus_agrees.andThen id ?_
    rintro plus rest'' ⟨hle'', repeated', hplus', hread''⟩
    exact ⟨hle''.trans (hle'.trans hle), repeated', hplus', hread''⟩

end

/-- **Factors are read as the reader reads them.** -/
theorem factor_agrees (depth : Nat) : Agrees (factor depth) depth := by
  induction depth with
  | zero =>
    intro s hs
    cases hs
  | succ depth ih =>
    intro s hs name outer frame repeated done hplus
    show Meets _ _ _ ((ws s).andThen _)
    cases hskip : skipBlanks s with
    | error rest =>
      rw [ws_of_error hskip]
      exact ⟨.unterminated .unterminatedComment none, rfl, resume_openComment hskip⟩
    | ok source =>
      rw [ws_of_ok hskip, andThen_done]
      have hle := skipBlanks_length hskip
      have hreply : FactorReply (factor depth) source (piece source) _ := atom_reply source
      cases hp : piece source with
      | token t rest =>
        rw [hp] at hreply
        have hlt := piece_length hp
        have hshorter : rest.length < s.length := by omega
        cases t with
        | name | angled | literal =>
          rw [hreply]
          exact ⟨hshorter, false, nofun, resume_onward hskip hp rfl⟩
        | opening bracket =>
          have hread : resume (.body name outer frame repeated) done s
              = resume (.body name ((bracket, frame) :: outer) {} false) done rest :=
            resume_onward hskip hp rfl
          rw [hreply, hread]
          refine (inside_agrees ih (by omega) bracket).imp ?_ False.elim
          rintro e rest' ⟨hle', hread'⟩
          exact ⟨by omega, hread'⟩
        | define | terminator | bar | plus | closing =>
          obtain ⟨contexts, hback⟩ := hreply
          rw [hback]
          exact ⟨source, hskip, .inr ⟨_, rest, hp, rfl⟩⟩
      | ending e =>
        rw [hp] at hreply
        rcases piece_ending hp with rfl | ⟨code, rest, rfl, hopens⟩
        · obtain ⟨contexts, hback⟩ := hreply
          rw [hback]
          exact ⟨source, hskip, .inl hp⟩
        · rw [hreply]
          exact ⟨.unterminated code none, rfl, resume_ending hskip hp⟩

/-! ## 3. Productions -/

section

variable {text : String} {done : List Production} {s : List Char} {bound : Nat}
  {factor : Step Expr}

/-- **The definition sign.** -/
theorem define_agrees :
    Meets (resume (.named text) done s)
      (fun _ rest => rest.length ≤ s.length ∧
        resume (.named text) done s = resume (.body text [] {} false) done rest)
      False (demand .definition (alt (tag [':', ':', '=']) (tag ['='])) s) := by
  cases hskip : skipBlanks s with
  | error rest =>
    rw [demand_of_error hskip]
    exact ⟨.unterminated .unterminatedComment (some .definition), rfl, resume_openComment hskip⟩
  | ok source =>
    have hle := skipBlanks_length hskip
    by_cases hdefine : ∃ long rest, piece source = .token (.define long) rest
    · obtain ⟨long, rest, hp⟩ := hdefine
      have htag : alt (tag [':', ':', '=']) (tag ['=']) source = .done () rest := by
        obtain ⟨w, rfl, hw⟩ := spells_of_piece hp
        cases hw with
        | longDefine => simp [alt, tag]
        | mark h =>
          unfold Token.ofMark? at h
          split at h <;> cases h
          simp [alt, tag]
      rw [demand_done hskip htag]
      have hlt := piece_length hp
      exact ⟨by omega, resume_onward hskip hp rfl⟩
    · have htag : alt (tag [':', ':', '=']) (tag ['=']) source = .back source [] := by
        rw [alt_back (tag_of_other ?_), tag_of_other]
        · rintro ⟨rest, rfl⟩
          exact hdefine ⟨false, rest, rfl⟩
        · rintro ⟨rest, rfl⟩
          exact hdefine ⟨true, rest, rfl⟩
      rw [demand_back hskip htag]
      refine ⟨.unexpected .definition, rfl, ?_⟩
      cases hp : piece source with
      | token t rest =>
        refine resume_refused hskip hp ?_
        cases t with
        | define long => exact absurd ⟨long, rest, hp⟩ hdefine
        | _ => rfl
      | ending e =>
        rw [resume_ending hskip hp]
        rcases piece_ending hp with rfl | ⟨code, rest, rfl, -⟩
        · cases source <;> rfl
        · rfl

/-- **The end of a production.** -/
theorem terminator_agrees {frame : Frame} {repeated : Bool} (hidle : Idle s) (hbar : Lacks .bar s)
    (hplus : repeated = true → Lacks .plus s) :
    Meets (resume (.body text [] frame repeated) done s)
      (fun _ rest => rest.length ≤ s.length ∧ resume (.body text [] frame repeated) done s
        = resume .between (⟨text, frame.expr⟩ :: done) rest)
      False (demand .terminator (alt (char '.') (char ';')) s) := by
  obtain ⟨source, hsource, -⟩ := id hidle
  have hle := skipBlanks_length hsource
  by_cases hend : ∃ mark rest, piece source = .token (.terminator mark) rest
  · obtain ⟨mark, rest, hp⟩ := hend
    have hchar : alt (char '.') (char ';') source = .done () rest := by
      obtain ⟨w, rfl, hw⟩ := spells_of_piece hp
      cases hw with
      | mark h =>
        unfold Token.ofMark? at h
        split at h <;> cases h <;> simp [alt]
    rw [demand_done hsource hchar]
    have hlt := piece_length hp
    exact ⟨by omega, resume_completed hsource hp rfl⟩
  · have hchar : alt (char '.') (char ';') source = .back source [] := by
      rw [alt_back (char_back ?_), char_back]
      · rintro rest rfl
        exact hend ⟨_, rest, piece_mark rfl rest⟩
      · rintro rest rfl
        exact hend ⟨_, rest, piece_mark rfl rest⟩
    rw [demand_back hsource hchar]
    refine ⟨.unexpected .terminator, rfl, resume_idle hidle hsource (by rintro ⟨⟩) ?_⟩
    intro t rest htoken hsign
    refine next_eq_none hsign ?_ ?_ (by rintro _ _ ⟨⟩) ?_
    · rintro rfl
      exact hbar source rest hsource htoken
    · rintro hrepeated rfl
      exact hplus hrepeated source rest hsource htoken
    · rintro - mark rfl
      exact hend ⟨mark, rest, htoken⟩

/-- **No production begins here:** the text ends behind the blanks, or there is a mistake. -/
def Over (s : List Char) : Prop := ∃ source, skipBlanks s = .ok source ∧
  ∀ done, resume .between done s =
    if source = [] then .ok done.reverse else .error ⟨source, .unexpected .production⟩

/-- A production behind its name. -/
theorem named_agrees (h : Agrees factor bound) (hs : s.length < bound) :
    Meets (resume (.named text) done s)
      (fun p rest => rest.length ≤ s.length ∧
        resume (.named text) done s = resume .between (p :: done) rest)
      False ((do
        demand .definition (alt (tag [':', ':', '=']) (tag ['=']))
        let e ← expression factor
        demand .terminator (alt (char '.') (char ';'))
        return ⟨text, e⟩ : Step Production) s) := by
  refine define_agrees.andThen id ?_
  rintro _ rest ⟨hle, hread⟩
  rw [hread]
  refine (expression_agrees h (Nat.lt_of_le_of_lt hle hs)).andThen id ?_
  rintro e rest' ⟨hle', hidle, hbar, frame, repeated, hplus, rfl, hread'⟩
  rw [hread']
  refine (terminator_agrees hidle hbar hplus).andThen id ?_
  rintro _ rest'' ⟨hle'', hread''⟩
  exact ⟨hle''.trans (hle'.trans hle), hread''⟩

/-- Where no name begins, no production does. -/
theorem over_of_name_back {source : List Char} (hskip : skipBlanks s = .ok source)
    (hback : name source = .back source []) : Over s := by
  have hreply := name_reply source
  refine ⟨source, hskip, fun done => ?_⟩
  cases hp : piece source with
  | token t rest =>
    have hlt := piece_length hp
    have hne : source ≠ [] := fun h => by simp [h] at hlt
    rw [if_neg hne]
    refine resume_refused hskip hp ?_
    rw [hp, hback] at hreply
    cases t with
    | name | angled => cases hreply
    | _ => rfl
  | ending e =>
    rw [resume_ending hskip hp]
    rcases piece_ending hp with rfl | ⟨code, rest, rfl, hopens⟩
    · cases source <;> rfl
    · have hne : source ≠ [] := by
        rintro rfl
        cases hopens
      rw [if_neg hne]
      rw [hp, hback] at hreply
      cases code with
      | unterminatedName => cases hreply
      | _ => rfl

/-- **A production.** -/
theorem production_agrees (h : Agrees factor bound) (hs : s.length < bound) :
    Meets (resume .between done s)
      (fun p rest => rest.length < s.length ∧
        resume .between done s = resume .between (p :: done) rest)
      (Over s) (production factor s) := by
  show Meets _ _ _ ((ws s).andThen _)
  cases hskip : skipBlanks s with
  | error rest =>
    rw [ws_of_error hskip]
    exact ⟨.unterminated .unterminatedComment none, rfl, resume_openComment hskip⟩
  | ok source =>
    rw [ws_of_ok hskip, andThen_done]
    show Meets _ _ _ ((name source).andThen _)
    have hle := skipBlanks_length hskip
    have hreply := name_reply source
    generalize hp : piece source = p at hreply
    unfold NameReply at hreply
    split at hreply
    case h_1 | h_2 =>
      rename_i text rest
      have hlt := piece_length hp
      have hread : resume .between done s = resume (.named text) done rest :=
        resume_onward hskip hp rfl
      rw [hreply, andThen_done, hread]
      refine (named_agrees h (by omega)).imp ?_ False.elim
      rintro p rest' ⟨hle', hread'⟩
      exact ⟨by omega, hread'⟩
    case h_3 =>
      rw [hreply]
      exact ⟨.unterminated .unterminatedName none, rfl, resume_ending hskip hp⟩
    case h_4 =>
      rw [hreply]
      exact over_of_name_back hskip hreply

/-- Some productions lead from those that are done to more; the last one comes first. -/
def ProductionsTaken (before ps after : List Production) : Prop := after = ps.reverse ++ before

/-- **The productions of a grammar.** -/
theorem productions_agree (h : Agrees factor bound) (hs : s.length < bound) :
    Meets (resume .between done s)
      (fun ps rest => Over rest ∧
        resume .between done s = resume .between (ps.reverse ++ done) rest)
      False (many (production factor) s) := by
  have hone : ∀ (done : List Production) (s : List Char), s.length < bound →
      Meets (resume .between done s)
        (fun p rest => rest.length < s.length ∧ ∃ done' : List Production, rest.length < bound ∧
          resume .between done s = resume .between done' rest ∧
          ∀ ps last, ProductionsTaken done' ps last → ProductionsTaken done (p :: ps) last)
        (Over s) (production factor s) := by
    intro done s hs
    refine (production_agrees h hs).imp ?_ id
    rintro p rest ⟨hlt, hread⟩
    refine ⟨hlt, p :: done, hlt.trans hs, hread, ?_⟩
    rintro ps _ rfl
    show ps.reverse ++ p :: done = (p :: ps).reverse ++ done
    simp
  have hnil : ∀ done, ProductionsTaken done [] done := fun _ => rfl
  refine (Meets.many hnil hone hs).imp ?_ id
  rintro ps rest ⟨-, _, -, hover, rfl, hread⟩
  exact ⟨hover, hread⟩

/-- **A grammar:** it is read as the reader reads it, and a mistake shows at the same place. -/
theorem grammar_agrees (h : Agrees factor bound) (hs : s.length < bound) :
    (∃ ps, grammar factor s = .done ps [] ∧ resume .between [] s = .ok ps) ∨
    ∃ rest contexts, FailsWith (resume .between [] s) rest contexts ∧
      (grammar factor s = .back rest contexts ∨ grammar factor s = .cut rest contexts) := by
  have hmany : Meets (resume .between [] s) _ _ (many (production factor) s) :=
    productions_agree h hs
  have hgrammar : grammar factor s = (many (production factor) s).andThen fun productions => do
      ws
      within (.expected .production) eof
      return productions := rfl
  rw [hgrammar]
  cases hreply : many (production factor) s with
  | back rest contexts =>
    rw [hreply] at hmany
    exact hmany.elim
  | cut rest contexts =>
    rw [hreply] at hmany
    exact .inr ⟨rest, contexts, hmany, .inr rfl⟩
  | done ps rest =>
    rw [hreply] at hmany
    obtain ⟨⟨source, hsource, hover⟩, hread⟩ := hmany
    rw [hread, hover, List.append_nil, List.reverse_reverse]
    cases source with
    | nil => exact .inl ⟨ps, by simp [ws_of_ok hsource, within, eof], rfl⟩
    | cons c source =>
      refine .inr ⟨c :: source, [.expected .production], ⟨.unexpected .production, rfl, rfl⟩, .inl ?_⟩
      simp [ws_of_ok hsource, within, eof]

end

/-! ## 4. Texts -/

/-- The diagnostic of a failure is that of the mistake. -/
theorem toDiagnostic_contextsOf (source rest : List Char) (cause : Cause) :
    toDiagnostic source rest (contextsOf cause) = Mistake.toDiagnostic source ⟨rest, cause⟩ := by
  have hwidth : (rest.head?.map Char.utf8Size).getD 0 = byteLength (rest.take 1) := by
    cases rest <;> simp [byteLength]
  unfold toDiagnostic Mistake.toDiagnostic
  rw [hwidth]
  cases cause with
  | unexpected wanted => cases rest <;> simp [contextsOf]
  | unterminated code wanted => cases wanted <;> simp [contextsOf]

/-- **Reading by recursive descent** is reading with a stack: the same texts are grammars, with the same
productions, and the others are refused with the same diagnostic. -/
theorem parse_eq (text : String) : Descent.parse text = Ebnf.parse text := by
  have hbound : text.toList.length < text.toList.length + 1 := Nat.lt_succ_self _
  have hstart : resume .between [] text.toList = parseChars text.toList := rfl
  have hall := grammar_agrees (factor_agrees _) hbound
  rw [hstart] at hall
  rw [Descent.parse, Ebnf.parse]
  rcases hall with ⟨ps, hgrammar, hread⟩ | ⟨rest, contexts, ⟨cause, rfl, hread⟩, hgrammar⟩
  · rw [hgrammar, hread]
    rfl
  · rw [hread]
    rcases hgrammar with hgrammar | hgrammar
    · rw [hgrammar]
      simp only [Except.mapError, toDiagnostic_contextsOf]
    · rw [hgrammar]
      simp only [Except.mapError, toDiagnostic_contextsOf]

end Railroad.Ebnf.Descent
