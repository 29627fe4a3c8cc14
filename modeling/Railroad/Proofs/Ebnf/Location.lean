/-
# Where a mistake is shown

A text that is refused is refused with one diagnostic, and that points at one character of it or at
its end (`Label.PointsAt`).  The code says what stands there: a comment, a literal or a name that is
left open, and otherwise whether the text stops there or goes on (`Code.Tells`).

What is left open at a place is said without the reader.  `ComesTo` cuts a text into the stretches of
`Splits` up to a place where a token may start, and `LeavesOpen` says what is opened there and breaks
off.  Such a place is unique, because nothing can be read behind it (`Fails.of_comesTo`); so the
reader, which comes to its mistake by some way, has come to it by this one.

`Code.Tells` is what a code promises about the text alone: each code is there if and only if a
certain thing stands at the label.  So a code cannot be true of a text for which another code would
have been the better one, and a reader that reported the same code for everything would fail it.

That the label is a good one for every reader is shown along `State.Fails`; that its code is the
only one that fits is shown from the uniqueness of the place.  Places are counted in bytes and have
to lie on the boundaries of characters (`Label.PointsAt`), which is a matter of how long the parts
of a text are when they are encoded and is kept apart from the rest.
-/
import Railroad.Proofs.Ebnf.Mistakes

namespace Railroad.Ebnf

/-! ## 1. Places where a token may start -/

/-- **A token may start at `left`:** what stands before it is cut into stretches, each of them the
longest that there is at its place.  It is the relation `Splits` for a text that is not cut to its
end. -/
inductive ComesTo : List Char → List Char → Prop where
  | here (left : List Char) : ComesTo left left
  | skip {w rest left : List Char} (first : Longest w none rest) (onward : ComesTo rest left) :
    ComesTo (w ++ rest) left
  | token {w rest left : List Char} {t : Token} (first : Longest w (some t) rest)
    (noComment : ¬ ['(', '*'] <+: w ++ rest) (onward : ComesTo rest left) :
    ComesTo (w ++ rest) left

namespace ComesTo

variable {s s' left : List Char}

theorem trans (h : ComesTo s s') (h' : ComesTo s' left) : ComesTo s left := by
  induction h with
  | here => exact h'
  | skip first _ ih => exact .skip first (ih h')
  | token first hcomment _ ih => exact .token first hcomment (ih h')

theorem suffix (h : ComesTo s left) : left <:+ s := by
  induction h with
  | here => exact List.suffix_refl _
  | skip _ _ ih | token _ _ _ ih => exact ih.trans (List.suffix_append _ _)

/-- A token may start where the scanner has skipped all that it skips. -/
theorem unskipped (s : List Char) : ComesTo s (unskipped (skipBlanks s)) := by
  induction hn : s.length using Nat.strong_induction_on generalizing s with
  | _ n ih =>
    by_cases hs : Ebnf.unskipped (skipBlanks s) = s
    · rw [hs]
      exact .here s
    · obtain ⟨w₀, hw₀, hspells⟩ := spells_of_skipBlanks hs
      obtain ⟨w, t, rest, rfl, hlongest⟩ := exists_longest hspells hw₀
      cases t with
      | none =>
        have hlt : rest.length < n := by
          have := List.length_pos_of_ne_nil hlongest.spells.ne_nil
          rw [List.length_append] at hn
          omega
        rw [hlongest.skipBlanks_eq]
        exact .skip hlongest (ih _ hlt rest rfl)
      | some t =>
        -- At a token nothing is skipped, and neither is at a comment that is never closed.
        refine absurd ?_ hs
        by_cases hcomment : ['(', '*'] <+: w ++ rest
        · obtain ⟨r, hr, herror⟩ := hlongest.openComment hcomment
          rw [herror, hr]
          rfl
        · rw [skipBlanks_spells hlongest.spells (hlongest.apart hcomment)]
          rfl

theorem of_skip {source : List Char} (hs : skipBlanks s = .ok source) : ComesTo s source := by
  have h := unskipped s
  rwa [hs] at h

theorem of_openComment {rest : List Char} (hs : skipBlanks s = .error rest) :
    ComesTo s ('(' :: '*' :: rest) := by
  have h := unskipped s
  rwa [hs] at h

end ComesTo

/-- Where skipping stops, it stops at once. -/
theorem skipBlanks_idem {s source : List Char} (h : skipBlanks s = .ok source) :
    skipBlanks source = .ok source := by
  fun_induction skipBlanks s with
  | case1 =>
    cases h
    rw [skipBlanks]
  | case2 _ _ _ ih | case4 _ ih | case5 _ _ _ _ _ ih => exact ih h
  | case3 => cases h
  | case6 c r hparen hslash hblank =>
    cases h
    rw [skipBlanks.eq_4 c r hparen hslash, if_neg hblank]

/-- A token may start behind a token that the scanner reads. -/
theorem ComesTo.of_piece {s source rest : List Char} {t : Token} (hs : skipBlanks s = .ok source)
    (hp : piece source = .token t rest) : ComesTo s rest := by
  have hsource := ComesTo.of_skip hs
  have hstay := skipBlanks_idem hs
  obtain ⟨w₀, rfl, hspells⟩ := spells_of_piece hp
  obtain ⟨w, t', rest', heq, hlongest⟩ := exists_longest hspells ⟨rest, rfl⟩
  rw [heq] at hsource hstay hp
  cases t' with
  | none =>
    -- Nothing is skipped here, but a blank or a comment would be.
    rw [hlongest.skipBlanks_eq] at hstay
    have hle := skipBlanks_length hstay
    have hpos := List.length_pos_of_ne_nil hlongest.spells.ne_nil
    rw [List.length_append] at hle
    omega
  | some t' =>
    have hcomment := not_comment_of_skipBlanks hstay
    rw [piece_spells hlongest.spells (hlongest.apart hcomment)] at hp
    cases hp
    exact hsource.trans (.token hlongest hcomment (.here _))

/-! ## 2. What is left open -/

/-- **Something is left open up to `rest`:** where a token may start, a comment is opened right
before `rest` and never closed, or a literal or a name that breaks off at `rest`.  It does not
matter what a reader would have wanted there. -/
inductive LeavesOpen (s : List Char) : Code → List Char → Prop where
  | comment {rest : List Char} (place : ComesTo s ('(' :: '*' :: rest))
    (unclosed : ¬ ['*', ')'] <:+: rest) : LeavesOpen s .unterminatedComment rest
  | token {left rest : List Char} {code : Code} (place : ComesTo s left)
    (opens : OpensToken code left rest) : LeavesOpen s code rest

theorem LeavesOpen.of_comesTo {s s' rest : List Char} {code : Code} (h : LeavesOpen s' code rest)
    (hs : ComesTo s s') : LeavesOpen s code rest := by
  cases h with
  | comment place unclosed => exact .comment (hs.trans place) unclosed
  | token place opens => exact .token (hs.trans place) opens

/-- A comment that has no end is never closed, and the other way round. -/
theorem afterBlock?_eq_none {s : List Char} : afterBlock? s = none ↔ ¬ ['*', ')'] <:+: s := by
  constructor
  · intro h
    induction s using afterBlock?.induct with
    | case1 => simp
    | case2 => cases h
    | case3 c r hr ih =>
      rw [afterBlock?.eq_3 _ _ hr] at h
      intro hin
      rcases List.infix_cons_iff.mp hin with ⟨tail, htail⟩ | hin
      · obtain ⟨rfl, rfl⟩ := List.cons.inj htail
        exact hr tail rfl rfl
      · exact ih h hin
  · intro h
    cases hafter : afterBlock? s with
    | none => rfl
    | some rest =>
      obtain ⟨body, rfl, -⟩ := spells_of_afterBlock? hafter
      exact absurd ⟨body, rest, by simp⟩ h

/-- A comment that is never closed is where skipping ends, behind its opening. -/
theorem skipBlanks_openComment {rest : List Char} (h : ¬ ['*', ')'] <:+: rest) :
    skipBlanks ('(' :: '*' :: rest) = .error rest := by
  rw [skipBlanks]
  split
  · rename_i hafter
    rw [afterBlock?_eq_none.mpr h] at hafter
    cases hafter
  · rfl

theorem not_infix_of_skipBlanks {s rest : List Char} (h : skipBlanks s = .error rest) :
    ¬ ['*', ')'] <:+: rest := by
  fun_induction skipBlanks s with
  | case1 | case6 => cases h
  | case2 _ _ _ ih | case4 _ ih | case5 _ _ _ _ _ ih => exact ih h
  | case3 r hafter =>
    cases h
    exact afterBlock?_eq_none.mp hafter

namespace OpensToken

variable {code : Code} {s rest : List Char}

/-- What is opened and breaks off is read as such. -/
theorem piece_eq (h : OpensToken code s rest) : piece s = .ending (.openToken code s rest) := by
  cases h with
  | @literal quote body _ mark inside breaks =>
    have hbody : ∀ c ∈ body, isInside quote c = true := fun c hc => isInside_iff.mpr (inside c hc)
    have hends : ∀ c ∈ rest.head?, isInside quote c = false := by
      intro c hc
      obtain rfl := breaks c hc
      simp [isInside]
    have hquote : piece (quote :: (body ++ rest)) = literalPiece quote (body ++ rest) := by
      rcases mark with rfl | rfl <;> rfl
    rw [hquote, literalPiece, (span_append hbody hends).2]
    cases rest with
    | nil => rfl
    | cons c rest =>
      obtain rfl := breaks c rfl
      rcases mark with rfl | rfl <;> rfl
  | @name body _ inside breaks =>
    have hbody : ∀ c ∈ body, isInside '>' c = true := fun c hc => isInside_iff.mpr (inside c hc)
    have hends : ∀ c ∈ rest.head?, isInside '>' c = false := by
      intro c hc
      rcases breaks c hc with rfl | ⟨rfl, -⟩ <;> decide
    obtain ⟨htake, hdrop⟩ := span_append hbody hends
    show angledPiece (body ++ rest) = _
    rw [angledPiece, htake, hdrop]
    split
    · have hcase := breaks '>' rfl
      simp at hcase
    · rfl

theorem length_lt (h : OpensToken code s rest) : rest.length < s.length := by
  cases h <;> simp only [List.length_cons, List.length_append] <;> omega

theorem suffix (h : OpensToken code s rest) : rest <:+ s := by
  cases h <;> exact (List.suffix_append _ _).trans (List.suffix_cons _ _)

theorem skipBlanks_eq (h : OpensToken code s rest) : skipBlanks s = .ok s := by
  cases h with
  | @literal quote body _ mark inside breaks =>
    rcases mark with rfl | rfl <;> exact skipBlanks_cons (by decide) (by decide) (by simp)
  | name => exact skipBlanks_cons (by decide) (by decide) (by simp)

end OpensToken

/-! ## 3. The place of a mistake -/

namespace State

variable {state : State} {s : List Char} {m : Mistake}

/-- A mistake shows at what is left of the text. -/
theorem Fails.suffix (h : state.Fails s m) : m.source <:+ s := by
  induction h with
  | openComment _ hs =>
    have hplace := ComesTo.of_openComment hs
    exact (List.suffix_append ['(', '*'] _).trans hplace.suffix
  | stop hs | outOfPlace hs | refused hs => exact (ComesTo.of_skip hs).suffix
  | breaksOff hs hopens => exact hopens.suffix.trans (ComesTo.of_skip hs).suffix
  | onward hs hp _ _ ih => exact ih.trans (ComesTo.of_piece hs hp).suffix

/-- **What a mistake says to be left open is left open.** -/
theorem Fails.leavesOpen (h : state.Fails s m) {code : Code} {wanted : Option Expectation}
    (hm : m.cause = .unterminated code wanted) : LeavesOpen s code m.source := by
  induction h with
  | openComment _ hs =>
    cases hm
    exact .comment (.of_openComment hs) (not_infix_of_skipBlanks hs)
  | stop | outOfPlace | refused => cases hm
  | breaksOff hs hopens =>
    cases hm
    exact .token (.of_skip hs) hopens
  | onward hs hp _ _ ih => exact (ih hm).of_comesTo (.of_piece hs hp)

/-- How a text is failed on depends on what is left after the blanks. -/
theorem Fails.of_skip {s' : List Char} (h : state.Fails s m)
    (hskip : skipBlanks s = skipBlanks s') : state.Fails s' m := by
  cases h with
  | openComment wanted hs => exact .openComment wanted (hskip ▸ hs)
  | stop hs hp => exact .stop (hskip ▸ hs) hp
  | breaksOff hs hopens hawaits => exact .breaksOff (hskip ▸ hs) hopens hawaits
  | outOfPlace hs hp hawaits => exact .outOfPlace (hskip ▸ hs) hp hawaits
  | refused hs hp hnext => exact .refused (hskip ▸ hs) hp hnext
  | onward hs hp hnext h => exact .onward (hskip ▸ hs) hp hnext h

/-- At a token, the reader refuses it or goes on behind it. -/
theorem Fails.of_token {rest : List Char} {t : Token} (h : state.Fails s m)
    (hs : skipBlanks s = .ok s) (hp : piece s = .token t rest) :
    m.source = s ∨ ∃ state', Fails state' rest m := by
  cases h with
  | openComment _ hs' =>
    rw [hs] at hs'
    cases hs'
  | stop hs' hp' | outOfPlace hs' hp' =>
    rw [hs] at hs'
    cases hs'
    rw [hp] at hp'
    cases hp'
  | breaksOff hs' hopens =>
    rw [hs] at hs'
    cases hs'
    rw [hopens.piece_eq] at hp
    cases hp
  | refused hs' =>
    rw [hs] at hs'
    cases hs'
    exact .inl rfl
  | onward hs' hp' _ h =>
    rw [hs] at hs'
    cases hs'
    rw [hp] at hp'
    cases hp'
    exact .inr ⟨_, h⟩

/-- **A mistake shows before a place where a token may start, or the reader comes to that place.** -/
theorem Fails.of_comesTo {left : List Char} (hleft : ComesTo s left) (h : state.Fails s m) :
    left.length < m.source.length ∨ ∃ state', Fails state' left m := by
  induction hleft generalizing state with
  | here => exact .inr ⟨state, h⟩
  | skip first _ ih => exact ih (h.of_skip first.skipBlanks_eq)
  | @token w rest left t first hcomment onward ih =>
    have hapart := first.apart hcomment
    rcases h.of_token (skipBlanks_spells first.spells hapart) (piece_spells first.spells hapart)
      with hsource | ⟨state', hrest⟩
    · refine .inl ?_
      have hle := onward.suffix.length_le
      have hpos := List.length_pos_of_ne_nil first.spells.ne_nil
      rw [hsource, List.length_append]
      omega
    · exact ih hrest

/-- **What is left open at the place of a mistake is what it says.** -/
theorem Fails.cause_of_leavesOpen (h : state.Fails s m) {code : Code}
    (hopen : LeavesOpen s code m.source) : ∃ wanted, m.cause = .unterminated code wanted := by
  cases hopen with
  | comment place unclosed =>
    have hs := skipBlanks_openComment unclosed
    rcases h.of_comesTo place with hlt | ⟨state', hleft⟩
    · simp only [List.length_cons] at hlt
      omega
    · generalize hrest : m.source = rest at hs hleft
      cases hleft with
      | openComment wanted => exact ⟨wanted, rfl⟩
      | stop hs' | breaksOff hs' | outOfPlace hs' | refused hs' | onward hs' =>
        rw [hs] at hs'
        cases hs'
  | token place opens =>
    have hs := opens.skipBlanks_eq
    have hp := opens.piece_eq
    have hlength := opens.length_lt
    rcases h.of_comesTo place with hlt | ⟨state', hleft⟩
    · omega
    · generalize hrest : m.source = rest at hs hp hlength
      cases hleft with
      | openComment _ hs' =>
        rw [hs] at hs'
        cases hs'
      | stop hs' hp' | refused hs' hp' | onward hs' hp' =>
        rw [hs] at hs'
        cases hs'
        rw [hp] at hp'
        cases hp'
      | breaksOff hs' hopens =>
        rw [hs] at hs'
        cases hs'
        rw [hopens.piece_eq] at hp
        cases hp
        exact ⟨none, rfl⟩
      | outOfPlace hs' =>
        rw [hs] at hs'
        cases hs'
        exact absurd (hrest ▸ hlength) (Nat.lt_irrefl _)

end State

/-! ## 4. Diagnostics -/

/-- **A label points at a place of a text:** before it stands `before`, and it covers the next
character, `found`, or nothing where the text ends.  The places are counted in bytes, so a character
may take up to four of them. -/
structure Label.PointsAt (label : Label) (text before found after : String) : Prop where
  primary : label.primary = true
  text_eq : text = before ++ found ++ after
  start_eq : label.span.start = before.utf8ByteSize
  stop_eq : label.span.stop = (before ++ found).utf8ByteSize
  start_valid : (String.Pos.Raw.mk label.span.start).IsValid text
  stop_valid : (String.Pos.Raw.mk label.span.stop).IsValid text
  ordered : label.span.start ≤ label.span.stop ∧ label.span.stop ≤ text.utf8ByteSize
  empty_iff : label.span.start = label.span.stop ↔ label.span.start = text.utf8ByteSize
  single : label.span.start ≠ text.utf8ByteSize → found.length = 1

/-- **A code tells what is wrong** with the text `s` where `rest` is left of it: what is left open
there or, if nothing is, whether the text stops or goes on. -/
structure Code.Tells (code : Code) (s rest : List Char) : Prop where
  literal : code.text = "E001" ↔ LeavesOpen s .unterminatedLiteral rest
  comment : code.text = "E002" ↔ LeavesOpen s .unterminatedComment rest
  name : code.text = "E003" ↔ LeavesOpen s .unterminatedName rest
  incomplete : code.text = "E101" ↔ (∀ kind, ¬ LeavesOpen s kind rest) ∧ rest = []
  unexpected : code.text = "E100" ↔ (∀ kind, ¬ LeavesOpen s kind rest) ∧ rest ≠ []

/-- Where a text is split, there is a boundary between characters. -/
theorem isValid_utf8ByteSize (before after : String) :
    (String.Pos.Raw.mk before.utf8ByteSize).IsValid (before ++ after) :=
  String.Pos.Raw.isValid_iff_exists_append.mpr ⟨before, after, rfl, rfl⟩

/-- A label that covers a character, or nothing at the end of the text, points at its place. -/
theorem Label.pointsAt {label : Label} {text before found after : String}
    (primary : label.primary = true) (text_eq : text = before ++ found ++ after)
    (start_eq : label.span.start = before.utf8ByteSize)
    (stop_eq : label.span.stop = (before ++ found).utf8ByteSize)
    (covers : found.length = 1 ∨ found = "" ∧ after = "") :
    label.PointsAt text before found after where
  primary := primary
  text_eq := text_eq
  start_eq := start_eq
  stop_eq := stop_eq
  start_valid := by
    rw [start_eq, text_eq, String.append_assoc]
    exact isValid_utf8ByteSize _ _
  stop_valid := by
    rw [stop_eq, text_eq]
    exact isValid_utf8ByteSize _ _
  ordered := by
    refine ⟨label.span.start_le_stop, ?_⟩
    rw [stop_eq, text_eq, String.utf8ByteSize_append (t := after)]
    exact Nat.le_add_right _ _
  empty_iff := by
    rw [start_eq, stop_eq, text_eq]
    simp only [String.utf8ByteSize_append]
    rcases covers with hone | ⟨rfl, rfl⟩
    · have hpos : found.utf8ByteSize ≠ 0 := by
        intro hzero
        rw [String.utf8ByteSize_eq_zero_iff.mp hzero] at hone
        cases hone
      omega
    · simp
  single := by
    rcases covers with hone | ⟨rfl, rfl⟩
    · exact fun _ => hone
    · intro hne
      rw [start_eq, text_eq, String.append_empty, String.append_empty] at hne
      exact absurd rfl hne

/-- The label of a mistake points at the place where it shows. -/
theorem Mistake.pointsAt (before : List Char) (m : Mistake) : ∃ label,
    (m.toDiagnostic (before ++ m.source)).labels = [label] ∧
      label.PointsAt (String.ofList (before ++ m.source)) (String.ofList before)
        (String.ofList (m.source.take 1)) (String.ofList (m.source.drop 1)) := by
  obtain ⟨message, hlabels⟩ := m.labels_eq before
  have hstop : byteLength before ≤ byteLength (before ++ m.source.take 1) := by
    rw [byteLength_append]
    exact Nat.le_add_right _ _
  refine ⟨_, hlabels, Label.pointsAt rfl ?_ (byteLength_eq before) ?_ ?_⟩
  · rw [← String.ofList_append, ← String.ofList_append, List.append_assoc, List.take_append_drop]
  · rw [← String.ofList_append, ← byteLength_eq]
    exact Nat.max_eq_left hstop
  · cases m.source with
    | nil => exact .inr ⟨rfl, rfl⟩
    | cons c rest => exact .inl (String.length_ofList)

/-- The code of a mistake. -/
def Mistake.code (m : Mistake) : Code :=
  match m.cause, m.source with
  | .unterminated code _, _ => code
  | .unexpected _, _ :: _ => .unexpectedCharacter
  | .unexpected _, [] => .incompleteInput

theorem Mistake.code_toDiagnostic (source : List Char) (m : Mistake) :
    (m.toDiagnostic source).code = some m.code := by
  obtain ⟨rest, cause⟩ := m
  cases cause with
  | unterminated code wanted => rfl
  | unexpected wanted => cases rest <;> rfl

/-- **The code of a mistake tells what is wrong where it shows.** -/
theorem State.Fails.tells {state : State} {s : List Char} {m : Mistake} (h : state.Fails s m) :
    m.code.Tells s m.source := by
  have hopen (kind : Code) : LeavesOpen s kind m.source ↔
      ∃ wanted, m.cause = .unterminated kind wanted :=
    ⟨h.cause_of_leavesOpen, fun ⟨_, hm⟩ => h.leavesOpen hm⟩
  obtain ⟨rest, cause⟩ := m
  cases cause with
  | unterminated code wanted =>
    have hkind (kind : Code) : LeavesOpen s kind rest ↔ code = kind := by
      simpa using hopen kind
    have hcode : code = .unterminatedLiteral ∨ code = .unterminatedComment ∨
        code = .unterminatedName := by
      cases (hkind code).mpr rfl with
      | comment => exact .inr (.inl rfl)
      | token place opens =>
        cases opens with
        | literal => exact .inl rfl
        | name => exact .inr (.inr rfl)
    rcases hcode with rfl | rfl | rfl <;> constructor <;> simp [Mistake.code, Code.text, hkind]
  | unexpected wanted =>
    have hnone (kind : Code) : ¬ LeavesOpen s kind rest := by
      simpa using hopen kind
    cases rest <;> constructor <;> simp [Mistake.code, Code.text, hnone]

/-- **A diagnostic points at real text and says what is wrong there.**  A text that is refused is
refused with one diagnostic, which has a code and one label.  The label covers the character where
the mistake shows, or nothing at the end of the text, and the code is that of a comment, a literal
or a name that is left open there, or says that the text stops there or that it goes on.

Together with `parse_error_completes` this pins the place down from both sides: what stands before
it can be gone on with, and what the code says of it is true of nothing else. -/
theorem parse_error_located {text : String} {e : ParseError} (h : parse text = .error e) :
    ∃ d code label before found after, e.diagnostics = [d] ∧ d.code = some code ∧
      d.labels = [label] ∧ label.PointsAt text before found after ∧
      code.Tells text.toList (found ++ after).toList := by
  rw [parse] at h
  cases hchars : parseChars text.toList with
  | ok ps =>
    rw [hchars] at h
    cases h
  | error m =>
    rw [hchars] at h
    cases h
    have hfails := State.fails_of_run hchars
    obtain ⟨before, hs⟩ := hfails.suffix
    obtain ⟨label, hlabel, hpoints⟩ := m.pointsAt before
    rw [hs] at hlabel hpoints
    rw [String.ofList_toList] at hpoints
    refine ⟨_, m.code, label, _, _, _, rfl, m.code_toDiagnostic _, hlabel, hpoints, ?_⟩
    rw [← String.ofList_append, List.take_append_drop, String.toList_ofList]
    exact hfails.tells

/-- A name that breaks off behind characters of several bytes, and a line that ends there. -/
theorem parse_error_located_openName : ∃ e, parse "ä = \"→\" <b\n." = .error e ∧
    ∃ d code label before found after, e.diagnostics = [d] ∧ d.code = some code ∧
      d.labels = [label] ∧ label.PointsAt "ä = \"→\" <b\n." before found after ∧
      code.Tells "ä = \"→\" <b\n.".toList (found ++ after).toList := by
  have hparse : ∃ e, parse "ä = \"→\" <b\n." = .error e := by
    have hrefused : (parse "ä = \"→\" <b\n.").isOk = false := by decide +kernel
    cases h : parse "ä = \"→\" <b\n." with
    | error e => exact ⟨e, rfl⟩
    | ok ps =>
      rw [h] at hrefused
      cases hrefused
  obtain ⟨e, he⟩ := hparse
  exact ⟨e, he, parse_error_located he⟩

end Railroad.Ebnf
