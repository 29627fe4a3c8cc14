/-
# What the parsers of the notation reply

The parsers of recursive descent work on characters, the reader on tokens.  Here is what each parser
replies at a place, in terms of what the scanner finds there:

* blanks and comments are skipped as the scanner skips them (`ws_of_ok`, `ws_of_error`);
* a name is read where the next token is one, cut where it breaks off, and gone back from elsewhere
  (`name_reply`);
* a factor is tried as a literal, a name and a bracket in turn, and what comes of it follows from the
  token that is there (`atom_reply`).

So of the alternatives of a factor at most one gets past its first character.  That is why it does not
matter in which order they are tried, and why a reply from behind a cut point is never followed by
another alternative (`Settled`).
-/
import Railroad.Proofs.Ebnf.Descent

namespace Railroad.Ebnf.Descent

open Step

/-! ## 1. Putting parsers together -/

section

variable {α β : Type} {p q : Step α} {f : α → Step β} {a : α} {s rest : List Char}
  {contexts : List Context}

@[simp] theorem andThen_done : (Reply.done a rest).andThen f = f a rest := rfl

@[simp] theorem andThen_back : (Reply.back rest contexts).andThen f = .back rest contexts := rfl

@[simp] theorem andThen_cut : (Reply.cut rest contexts).andThen f = .cut rest contexts := rfl

@[simp] theorem bind_apply : (p >>= f) s = (p s).andThen f := rfl

@[simp] theorem pure_apply : (pure a : Step α) s = .done a s := rfl

theorem many_done (h : p s = .done a rest) (hlt : rest.length < s.length) :
    many p s = (many p rest).andThen fun others => pure (a :: others) := by
  rw [many, h]
  exact if_pos hlt

theorem many_back (h : p s = .back rest contexts) : many p s = .done [] s := by
  rw [many, h]

theorem many_cut (h : p s = .cut rest contexts) : many p s = .cut rest contexts := by
  rw [many, h]

/-- **The reply is not that of going back.** -/
def Settled (reply : Reply α) : Prop := ∀ rest contexts, reply ≠ .back rest contexts

theorem Settled.andThen {reply : Reply α} (h : Settled reply)
    (hf : ∀ a rest, Settled (f a rest)) : Settled (reply.andThen f) := by
  cases reply with
  | done a rest => exact hf a rest
  | back rest contexts => exact absurd rfl (h rest contexts)
  | cut => exact nofun

/-- The parser never goes back. -/
def Settles (p : Step α) : Prop := ∀ s, Settled (p s)

theorem settles_pure : Settles (pure a : Step α) := fun _ _ _ h => nomatch h

theorem Settles.bind (hp : Settles p) (hf : ∀ a, Settles (f a)) : Settles (p >>= f) :=
  fun s => (hp s).andThen fun a => hf a

theorem settles_committed {context : Context} : Settles (within context (committed p)) := by
  intro s rest contexts h
  rw [within, committed] at h
  cases hs : p s <;> rw [hs] at h <;> cases h

theorem settles_opt : Settles (opt p) := by
  intro s rest contexts h
  rw [opt] at h
  cases hs : p s <;> rw [hs] at h <;> cases h

/-- What is read as often as it can be is not read at all where it is not there. -/
theorem settles_many : Settles (many p) := by
  intro s
  induction hn : s.length using Nat.strong_induction_on generalizing s with
  | _ n ih =>
    rw [many]
    cases p s with
    | done a rest =>
      simp only
      split
      · rename_i hlt
        exact (ih _ (hn ▸ hlt) rest rfl).andThen fun _ => settles_pure
      · exact nofun
    | back | cut => exact nofun

theorem alt_settled (h : Settled (p s)) : alt p q s = p s := by
  rw [alt]
  cases hs : p s with
  | back rest contexts => exact absurd hs (h rest contexts)
  | done | cut => rfl

theorem alt_back (h : p s = .back rest contexts) : alt p q s = q s := by
  rw [alt, h]

@[simp] theorem char_cons (c d : Char) (s : List Char) :
    char c (d :: s) = if c = d then .done () s else .back (d :: s) [] := by
  by_cases h : c = d
  · simp [char, tag, h]
  · simp [char, tag, h]

@[simp] theorem char_nil (c : Char) : char c [] = .back [] [] := rfl

theorem tag_of_other {w : List Char} (h : ¬ w <+: s) : tag w s = .back s [] := by
  have hno : w.isPrefixOf s = false := by
    rwa [Bool.eq_false_iff, ne_eq, List.isPrefixOf_iff_prefix]
  rw [tag, hno]
  rfl

theorem char_back {c : Char} (h : ∀ rest, s ≠ c :: rest) : char c s = .back s [] := by
  refine tag_of_other ?_
  rintro ⟨rest, hrest⟩
  exact h rest hrest.symm

end

/-! ## 2. Blanks and comments -/

/-- One stretch of blanks, or a comment. -/
def blank : Step Unit :=
  alt (do let _ ← takeWhile1 Text.isBlank) (alt blockComment lineComment)

theorem skipBlanks_dropWhile (s : List Char) :
    skipBlanks (s.dropWhile Text.isBlank) = skipBlanks s := by
  induction s with
  | nil => rfl
  | cons c s ih =>
    by_cases hc : Text.isBlank c = true
    · rw [List.dropWhile_cons_of_pos hc, ih, skipBlanks_space hc]
    · rw [List.dropWhile_cons_of_neg hc]

theorem blank_block (rest : List Char) : blank ('(' :: '*' :: rest) =
    (afterBlock? rest).elim (.cut rest [.unterminated .unterminatedComment]) (.done ()) := by
  have hblank : Text.isBlank '(' = false := by decide
  cases h : afterBlock? rest <;>
    simp [blank, alt, takeWhile1, hblank, blockComment, tag, untilBlockEnd, committed, within, h]

theorem blank_line (rest : List Char) :
    blank ('/' :: '/' :: rest) = .done () (rest.dropWhile isInLine) := by
  have hblank : Text.isBlank '/' = false := by decide
  simp [blank, alt, takeWhile1, hblank, blockComment, lineComment, tag, takeWhile]

/-- **What is skipped as one** is skipped by the scanner. -/
theorem blank_cases (s : List Char) :
    (∃ rest, blank s = .done () rest ∧ rest.length < s.length ∧ skipBlanks s = skipBlanks rest) ∨
    (∃ rest, blank s = .cut rest [.unterminated .unterminatedComment] ∧
      skipBlanks s = .error rest) ∨
    ∃ rest contexts, blank s = .back rest contexts ∧ skipBlanks s = .ok s := by
  fun_cases skipBlanks s with
  | case1 => exact .inr (.inr ⟨[], [], rfl, rfl⟩)
  | case2 rest after h =>
    refine .inl ⟨after, by rw [blank_block, h]; rfl, ?_, rfl⟩
    have := afterBlock?_length h
    simp only [List.length_cons]
    omega
  | case3 rest h => exact .inr (.inl ⟨rest, by rw [blank_block, h]; rfl, rfl⟩)
  | case4 rest =>
    refine .inl ⟨_, blank_line rest, ?_, rfl⟩
    have := (List.dropWhile_suffix (l := rest) isInLine).length_le
    simp only [List.length_cons]
    omega
  | case5 c rest hparen hslash hc =>
    refine .inl ⟨rest.dropWhile Text.isBlank, ?_, ?_, (skipBlanks_dropWhile rest).symm⟩
    · simp [blank, alt, takeWhile1, hc]
    · exact Nat.lt_succ_of_le (List.dropWhile_suffix _).length_le
  | case6 c rest hparen hslash hc =>
    refine .inr (.inr ⟨c :: rest, [], ?_, rfl⟩)
    have hblock : tag ['(', '*'] (c :: rest) = .back (c :: rest) [] := by
      refine tag_of_other ?_
      rintro ⟨after, hafter⟩
      obtain ⟨rfl, rfl⟩ := List.cons.inj hafter
      exact hparen after rfl rfl
    have hline : tag ['/', '/'] (c :: rest) = .back (c :: rest) [] := by
      refine tag_of_other ?_
      rintro ⟨after, hafter⟩
      obtain ⟨rfl, rfl⟩ := List.cons.inj hafter
      exact hslash after rfl rfl
    simp [blank, alt, takeWhile1, hc, blockComment, lineComment, hblock, hline]

/-- **Blanks and comments are skipped** as the scanner skips them. -/
theorem many_blank (s : List Char) :
    (∃ rest, skipBlanks s = .ok rest ∧ ∃ n, many blank s = .done n rest) ∨
    ∃ rest, skipBlanks s = .error rest ∧
      many blank s = .cut rest [.unterminated .unterminatedComment] := by
  induction hn : s.length using Nat.strong_induction_on generalizing s with
  | _ n ih =>
    rcases blank_cases s with ⟨rest, hblank, hlt, hskip⟩ | ⟨rest, hblank, hskip⟩ |
        ⟨rest, contexts, hblank, hskip⟩
    · rw [many_done hblank hlt, hskip]
      rcases ih _ (hn ▸ hlt) rest rfl with ⟨after, hafter, k, hmany⟩ | ⟨after, hafter, hmany⟩
      · exact .inl ⟨after, hafter, _, by rw [hmany]; rfl⟩
      · exact .inr ⟨after, hafter, by rw [hmany]; rfl⟩
    · exact .inr ⟨rest, hskip, many_cut hblank⟩
    · exact .inl ⟨s, hskip, [], many_back hblank⟩

theorem ws_of_ok {s source : List Char} (h : skipBlanks s = .ok source) : ws s = .done () source := by
  show (many blank s).andThen _ = _
  rcases many_blank s with ⟨rest, hrest, n, hmany⟩ | ⟨rest, hrest, -⟩
  · cases h.symm.trans hrest
    rw [hmany]
    rfl
  · cases h.symm.trans hrest

theorem ws_of_error {s rest : List Char} (h : skipBlanks s = .error rest) :
    ws s = .cut rest [.unterminated .unterminatedComment] := by
  show (many blank s).andThen _ = _
  rcases many_blank s with ⟨after, hafter, -⟩ | ⟨after, hafter, hmany⟩
  · cases h.symm.trans hafter
  · cases h.symm.trans hafter
    rw [hmany]
    rfl

section

variable {what : Expectation} {p : Step Unit} {s source rest : List Char} {contexts : List Context}

theorem demand_of_error (h : skipBlanks s = .error rest) :
    demand what p s = .cut rest [.unterminated .unterminatedComment, .expected what] := by
  simp [demand, within, committed, ws_of_error h]

theorem demand_done (h : skipBlanks s = .ok source) (hp : p source = .done () rest) :
    demand what p s = .done () rest := by
  simp [demand, within, committed, ws_of_ok h, hp]

theorem demand_back (h : skipBlanks s = .ok source) (hp : p source = .back rest contexts) :
    demand what p s = .cut rest (contexts ++ [.expected what]) := by
  simp [demand, within, committed, ws_of_ok h, hp]

end

/-! ## 3. Factors -/

/-- What follows the opening of a bracket, up to the factor it makes. -/
def inside (factor : Step Expr) (bracket : Bracket) : Step Expr := do
  let e ← expression factor
  closing bracket
  match bracket with
  | .round => return e
  | .square => return .optional e
  | .curly =>
    let plus ← opt (do
      ws
      char '+')
    return if plus.isSome then .oneOrMore e else .repetition e

/-- **What a factor replies,** by the token that is there: a literal or a name is read, or cut where it
breaks off, a bracket is opened, and before anything else it goes back. -/
def FactorReply (factor : Step Expr) (s : List Char) : Piece → Reply Expr → Prop
  | .token (.name text) rest, reply => reply = .done (.identifier ⟨text, {}⟩) rest
  | .token (.angled text) rest, reply => reply = .done (.identifier ⟨text, {}⟩) rest
  | .token (.literal _ text) rest, reply =>
    reply = .done (if text.isEmpty then .empty else .literal ⟨text, {}⟩) rest
  | .token (.opening bracket) rest, reply => reply = inside factor bracket rest
  | .ending (.openToken code _ rest), reply => reply = .cut rest [.unterminated code]
  | _, reply => ∃ contexts, reply = .back s contexts

section

variable {factor : Step Expr}

theorem quoted_of_ne {quote c : Char} (hc : quote ≠ c) (rest : List Char) :
    quoted quote (c :: rest) = .back (c :: rest) [] := by
  simp [quoted, hc]

/-- Behind its quote a literal does not go back. -/
theorem quoted_settled (quote : Char) (body : List Char) :
    Settled (quoted quote (quote :: body)) := by
  simp only [quoted, bind_apply, char_cons, if_true, andThen_done]
  exact settles_committed body

theorem literal_back {s : List Char} (h : ∀ c ∈ s.head?, c ≠ '"' ∧ c ≠ '\'') :
    literal s = .back s [] := by
  cases s with
  | nil => rfl
  | cons c rest =>
    obtain ⟨hdouble, hsingle⟩ := h c rfl
    simp [literal, alt, quoted_of_ne hdouble.symm, quoted_of_ne hsingle.symm]

theorem literal_quote {quote : Char} (hq : quote = '"' ∨ quote = '\'') (body : List Char) :
    literal (quote :: body) = (quoted quote (quote :: body)).andThen fun text =>
      (return if text.isEmpty then .empty else .literal ⟨text, {}⟩) := by
  show (alt _ _ _).andThen _ = _
  rcases hq with rfl | rfl
  · rw [alt_settled (quoted_settled '"' body)]
  · rw [alt_back (quoted_of_ne (by decide) body)]

theorem literal_settled {quote : Char} (hq : quote = '"' ∨ quote = '\'') (body : List Char) :
    Settled (literal (quote :: body)) := by
  rw [literal_quote hq]
  exact (quoted_settled quote body).andThen fun _ => settles_pure

/-- A literal is what the scanner takes it for. -/
theorem literal_reply {quote : Char} (hq : quote = '"' ∨ quote = '\'') (body : List Char) :
    FactorReply factor (quote :: body) (literalPiece quote body) (literal (quote :: body)) := by
  rw [literal_quote hq]
  unfold literalPiece
  cases h : body.dropWhile (isInside quote) with
  | nil => simp [FactorReply, quoted, within, committed, takeWhile, h]
  | cons c rest =>
    by_cases hc : c = quote
    · simp [FactorReply, quoted, within, committed, takeWhile, h, hc]
    · simp [FactorReply, quoted, within, committed, takeWhile, h, hc, Ne.symm hc]

/-- **What a name replies,** by the token that is there. -/
def NameReply (s : List Char) : Piece → Reply String → Prop
  | .token (.name text) rest, reply => reply = .done text rest
  | .token (.angled text) rest, reply => reply = .done text rest
  | .ending (.openToken .unterminatedName _ rest), reply =>
    reply = .cut rest [.unterminated .unterminatedName]
  | _, reply => reply = .back s []

/-- Behind its `<` a name does not go back. -/
theorem name_settled (body : List Char) : Settled (name ('<' :: body)) := by
  have hangled : Settled (angled ('<' :: body)) := by
    simp only [angled, bind_apply, char_cons, if_true, andThen_done]
    exact settles_committed body
  rw [name, alt_settled hangled]
  exact hangled

theorem name_angled (body : List Char) :
    NameReply ('<' :: body) (angledPiece body) (name ('<' :: body)) := by
  unfold angledPiece
  cases htake : body.takeWhile (isInside '>') with
  | nil =>
    have hdrop : body.dropWhile (isInside '>') = body := by
      have hall := List.takeWhile_append_dropWhile (p := isInside '>') (l := body)
      rwa [htake] at hall
    simp [NameReply, name, angled, alt, within, committed, takeWhile1, htake, hdrop]
  | cons d text =>
    cases h : body.dropWhile (isInside '>') with
    | nil => simp [NameReply, name, angled, alt, within, committed, takeWhile1, htake, h]
    | cons c rest =>
      by_cases hc : c = '>'
      · simp [NameReply, name, angled, alt, within, committed, takeWhile1, htake, h, hc]
      · simp [NameReply, name, angled, alt, within, committed, takeWhile1, htake, h, hc, Ne.symm hc]

theorem name_plain {c : Char} (hc : isNameStart c = true) (rest : List Char) :
    name (c :: rest) = .done (String.ofList (c :: rest.takeWhile isNamePart))
      (rest.dropWhile isNamePart) := by
  have hne : '<' ≠ c := by
    rintro rfl
    exact absurd hc (by decide)
  simp [name, angled, plain, alt, oneOf, takeWhile, hc, hne]

theorem name_back {s : List Char} (h : ∀ c ∈ s.head?, c ≠ '<' ∧ isNameStart c = false) :
    name s = .back s [] := by
  cases s with
  | nil => rfl
  | cons c rest =>
    obtain ⟨hne, hstart⟩ := h c rfl
    simp [name, angled, plain, alt, oneOf, hstart, hne.symm]

/-- **A name behind the blanks.** -/
theorem name_reply (s : List Char) : NameReply s (piece s) (name s) := by
  have hquoted : ∀ {quote : Char} (body : List Char), quote = '"' ∨ quote = '\'' →
      NameReply (quote :: body) (literalPiece quote body) (name (quote :: body)) := by
    intro quote body hq
    rw [name_back (by rintro _ ⟨⟩; rcases hq with rfl | rfl <;> decide)]
    unfold literalPiece
    split
    · split <;> rfl
    · rfl
  unfold piece
  split
  case h_1 => rfl
  case h_2 body => exact hquoted body (.inl rfl)
  case h_3 body => exact hquoted body (.inr rfl)
  case h_4 body => exact name_angled body
  case h_17 c rest _ _ hangle _ _ _ _ _ _ _ _ _ _ _ _ =>
    split
    case isTrue hstart => exact name_plain hstart rest
    case isFalse hstart =>
      refine name_back ?_
      rintro _ ⟨⟩
      exact ⟨hangle, Bool.not_eq_true _ ▸ hstart⟩
  all_goals
    refine name_back ?_
    rintro _ ⟨⟩
    decide

/-- A name that is there, or breaks off, is a factor. -/
theorem factorReply_of_name {s : List Char} {p : Piece} {reply : Reply String}
    (h : NameReply s p reply) (hsettled : Settled reply) :
    FactorReply factor s p (reply.andThen fun text => (return .identifier ⟨text, {}⟩ : Step Expr)) := by
  unfold NameReply at h
  split at h
  case h_4 => exact absurd h (hsettled _ _)
  all_goals
    rw [h]
    rfl

theorem identifier_back {s : List Char} (h : ∀ c ∈ s.head?, c ≠ '<' ∧ isNameStart c = false) :
    identifier s = .back s [] := by
  rw [identifier, bind_apply, name_back h, andThen_back]

theorem identifier_plain {c : Char} (hc : isNameStart c = true) (rest : List Char) :
    identifier (c :: rest) = .done
      (.identifier ⟨String.ofList (c :: rest.takeWhile isNamePart), {}⟩)
      (rest.dropWhile isNamePart) := by
  rw [identifier, bind_apply, name_plain hc, andThen_done, pure_apply]

theorem settles_expression : Settles (expression factor) :=
  ((settles_many.bind fun _ => settles_pure).bind fun _ =>
    settles_many.bind fun _ => settles_pure).bind fun _ => settles_pure

theorem settles_inside (bracket : Bracket) : Settles (inside factor bracket) := by
  refine settles_expression.bind fun _ => settles_committed.bind fun _ => ?_
  cases bracket with
  | round | square => exact settles_pure
  | curly => exact settles_opt.bind fun _ => settles_pure

/-- A factor in these brackets. -/
def bracketed (factor : Step Expr) : Bracket → Step Expr
  | .round => group factor
  | .square => option factor
  | .curly => repetition factor

/-- A factor in brackets goes back before its bracket, and not behind it. -/
theorem bracketed_cons (bracket : Bracket) (c : Char) (rest : List Char) :
    bracketed factor bracket (c :: rest) =
      if bracket.left = c then inside factor bracket rest else .back (c :: rest) [] := by
  by_cases h : bracket.left = c
  · rw [if_pos h]
    cases bracket <;>
      simp only [bracketed, group, option, repetition, delimited, inside, bind_apply, char_cons,
        if_pos h, andThen_done] <;>
      cases expression factor rest with
      | back | cut => rfl
      | done e after =>
        simp only [andThen_done, bind_apply]
        cases closing _ after <;> rfl
  · rw [if_neg h]
    cases bracket <;>
      simp only [bracketed, group, option, repetition, delimited, bind_apply, char_cons, if_neg h,
        andThen_back]

theorem atom_eq : atom factor = alt literal (alt identifier (alt (bracketed factor .round)
    (alt (bracketed factor .square) (bracketed factor .curly)))) := rfl

/-- **A bracket that is open** is tried as nothing else. -/
theorem atom_opening (bracket : Bracket) (rest : List Char) :
    atom factor (bracket.left :: rest) = inside factor bracket rest := by
  have hliteral : literal (bracket.left :: rest) = .back (bracket.left :: rest) [] :=
    literal_back (by rintro _ ⟨⟩; cases bracket <;> decide)
  have hidentifier := identifier_back (s := bracket.left :: rest)
    (by rintro _ ⟨⟩; cases bracket <;> decide)
  have hthis : bracketed factor bracket (bracket.left :: rest) = inside factor bracket rest := by
    rw [bracketed_cons, if_pos rfl]
  have hother : ∀ other : Bracket, other ≠ bracket →
      bracketed factor other (bracket.left :: rest) = .back (bracket.left :: rest) [] := by
    intro other hne
    rw [bracketed_cons, if_neg]
    cases other <;> cases bracket <;> first | exact absurd rfl hne | decide
  have hsettles : ∀ q, alt (bracketed factor bracket) q (bracket.left :: rest)
      = inside factor bracket rest := by
    intro q
    rw [alt_settled (hthis ▸ settles_inside bracket rest), hthis]
  rw [atom_eq, alt_back hliteral, alt_back hidentifier]
  cases bracket with
  | round => exact hsettles _
  | square =>
    rw [alt_back (hother .round (by decide))]
    exact hsettles _
  | curly => rw [alt_back (hother .round (by decide)), alt_back (hother .square (by decide)), hthis]

/-- A factor begins with this character. -/
def beginsFactor (c : Char) : Bool :=
  c == '"' || c == '\'' || c == '<' || isNameStart c || c == '(' || c == '[' || c == '\x7b'

/-- Where no factor begins, none is read. -/
theorem atom_back {s : List Char} (h : ∀ c ∈ s.head?, beginsFactor c = false) :
    ∃ contexts, atom factor s = .back s contexts := by
  simp only [beginsFactor, Bool.or_eq_false_iff, beq_eq_false_iff_ne] at h
  have hliteral : literal s = .back s [] :=
    literal_back fun c hc => ⟨(h c hc).1.1.1.1.1.1, (h c hc).1.1.1.1.1.2⟩
  have hname := identifier_back (s := s) fun c hc => ⟨(h c hc).1.1.1.1.2, (h c hc).1.1.1.2⟩
  rw [atom_eq, alt_back hliteral, alt_back hname]
  cases s with
  | nil => exact ⟨_, rfl⟩
  | cons c rest =>
    obtain ⟨⟨⟨-, hround⟩, hsquare⟩, hcurly⟩ := h c rfl
    have hback : ∀ bracket, bracketed factor bracket (c :: rest) = .back (c :: rest) [] := by
      intro bracket
      rw [bracketed_cons, if_neg]
      cases bracket
      · exact hround.symm
      · exact hsquare.symm
      · exact hcurly.symm
    exact ⟨[], by rw [alt_back (hback _), alt_back (hback _), hback]⟩

/-- **A factor behind the blanks.** -/
theorem atom_reply (s : List Char) : FactorReply factor s (piece s) (atom factor s) := by
  have hquoted : ∀ {quote : Char} (body : List Char), quote = '"' ∨ quote = '\'' →
      FactorReply factor (quote :: body) (literalPiece quote body) (atom factor (quote :: body)) := by
    intro quote body hq
    rw [atom_eq, alt_settled (literal_settled hq body)]
    exact literal_reply hq body
  unfold piece
  split
  case h_1 => exact atom_back (by rintro _ ⟨⟩)
  case h_2 body => exact hquoted body (.inl rfl)
  case h_3 body => exact hquoted body (.inr rfl)
  case h_4 body =>
    have hsettled : Settled (identifier ('<' :: body)) :=
      (name_settled body).andThen fun _ => settles_pure
    rw [atom_eq, alt_back (literal_back (by rintro _ ⟨⟩; decide)), alt_settled hsettled]
    exact factorReply_of_name (name_angled body) (name_settled body)
  case h_11 rest => exact atom_opening .round rest
  case h_12 rest => exact atom_opening .square rest
  case h_13 rest => exact atom_opening .curly rest
  case h_17 c rest hdouble hsingle hangle _ _ _ _ _ _ hround hsquare hcurly _ _ _ =>
    have hliteral : literal (c :: rest) = .back (c :: rest) [] := literal_back (by
      rintro _ ⟨⟩
      exact ⟨hdouble, hsingle⟩)
    split
    case isTrue hstart =>
      have hname := identifier_plain hstart rest
      rw [atom_eq, alt_back hliteral, alt, hname]
      rfl
    case isFalse hstart =>
      refine atom_back ?_
      rintro _ ⟨⟩
      simpa [beginsFactor, hstart] using
        ⟨⟨⟨⟨⟨hdouble, hsingle⟩, hangle⟩, hround⟩, hsquare⟩, hcurly⟩
  all_goals
    refine atom_back ?_
    rintro _ ⟨⟩
    decide

end

end Railroad.Ebnf.Descent
