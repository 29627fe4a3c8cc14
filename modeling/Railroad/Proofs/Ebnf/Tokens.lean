/-
# The tokens of a text

The lexical rules of the notation, stated without a scanner.  `Spells` says which characters make
up a token, a blank or a comment, and `Splits` cuts a text into such stretches, each of them the
longest one at its place.

The scanner does the same (`splits_iff_scans`).  In one direction every longest stretch is taken
off by one step of it (`Longest.skipBlanks_eq`, `scan_spells`).  In the other a text that is scanned
to its end begins with something that is spelled, hence with a longest such stretch, and this is the
one the scanner takes off; so nothing has to be said about how two stretches at one place compare.

Longest match is not a matter of taste here.  A name that is followed by more of a name is one name;
`::=` is not three tokens; and a `(` before a star is never a bracket, even if the comment that it
opens is never closed, in which case the text has no tokens at all.  The last of these is the reason
for the side condition in `Splits`: the longest stretch that spells something at such a place would
be the bracket.

The second direction goes by the length of the text, since a stretch may be of any length and what
is left is shorter.  It never compares two stretches.  It finds that *something* is spelled at the
start, takes a longest one, and uses the first direction to see that the scanner takes off just
that.
-/
import Mathlib.Data.List.Infix
import Mathlib.Data.List.TakeWhile
import Mathlib.Data.Nat.Find
import Railroad.Ebnf.Token

namespace Railroad.Ebnf

/-! ## 1. Lexical rules -/

/-- The tokens of one character. -/
def Token.ofMark? : Char → Option Token
  | '=' => some (.define false)
  | '.' => some (.terminator '.')
  | ';' => some (.terminator ';')
  | '|' => some .bar
  | '+' => some .plus
  | '(' => some (.opening .round)
  | '[' => some (.opening .square)
  | '\x7b' => some (.opening .curly)
  | ')' => some (.closing .round)
  | ']' => some (.closing .square)
  | '\x7d' => some (.closing .curly)
  | _ => none

/-- **What a stretch of text spells:** a token or, with `none`, something that is skipped. -/
inductive Spells : List Char → Option Token → Prop where
  | space {c : Char} (blank : c = ' ' ∨ c = '\t' ∨ c = '\r' ∨ c = '\n') : Spells [c] none
  /-- A block comment ends with the first `*)`. -/
  | block {body : List Char} (firstEnd : ¬ ['*', ')'] <:+: body) :
    Spells ('(' :: '*' :: (body ++ ['*', ')'])) none
  | line {body : List Char} (inLine : ∀ c ∈ body, c ≠ '\n' ∧ c ≠ '\r') :
    Spells ('/' :: '/' :: body) none
  | name {c : Char} {cs : List Char} (start : isNameStart c = true)
    (parts : ∀ d ∈ cs, isNamePart d = true) :
    Spells (c :: cs) (some (.name (String.ofList (c :: cs))))
  | angled {body : List Char} (filled : body ≠ []) (inside : ∀ c ∈ body, c ≠ '>' ∧ c ≠ '\n') :
    Spells ('<' :: (body ++ ['>'])) (some (.angled (String.ofList body)))
  | literal {quote : Char} {body : List Char} (mark : quote = '"' ∨ quote = '\'')
    (inside : ∀ c ∈ body, c ≠ quote ∧ c ≠ '\n') :
    Spells (quote :: (body ++ [quote])) (some (.literal quote (String.ofList body)))
  | longDefine : Spells [':', ':', '='] (some (.define true))
  | mark {c : Char} {t : Token} (h : Token.ofMark? c = some t) : Spells [c] (some t)

/-- **The longest stretch** that spells something at the start of a text; `rest` is what follows it.
Of two such stretches at one place neither can be longer, so there is one. -/
structure Longest (w : List Char) (t : Option Token) (rest : List Char) : Prop where
  spells : Spells w t
  longest : ∀ w' t', w' <+: w ++ rest → Spells w' t' → w'.length ≤ w.length

/-- **The tokens of a text.**  It is cut into stretches, each of them the longest that there is at
its place; blanks and comments between the tokens and at the end are skipped.  A parenthesis and a
star always open a comment, also if it is never closed. -/
inductive Splits : List Char → List Token → Prop where
  | done : Splits [] []
  | skip {w rest : List Char} {ts : List Token} (first : Longest w none rest)
    (onward : Splits rest ts) : Splits (w ++ rest) ts
  | token {w rest : List Char} {t : Token} {ts : List Token} (first : Longest w (some t) rest)
    (noComment : ¬ ['(', '*'] <+: w ++ rest) (onward : Splits rest ts) :
    Splits (w ++ rest) (t :: ts)

theorem Spells.ne_nil {w : List Char} {t : Option Token} (h : Spells w t) : w ≠ [] := by
  cases h <;> simp

/-- Where something is spelled, there is a longest stretch that spells something. -/
theorem exists_longest {s w : List Char} {t : Option Token} (h : Spells w t) (hw : w <+: s) :
    ∃ w t rest, s = w ++ rest ∧ Longest w t rest := by
  classical
  let P : Nat → Prop := fun n => ∃ t, Spells (s.take n) t
  have hP : ∀ w' t', w' <+: s → Spells w' t' → P w'.length := by
    intro w' t' hw' h'
    refine ⟨t', ?_⟩
    rwa [← List.prefix_iff_eq_take.mp hw']
  obtain ⟨t', h'⟩ : P (Nat.findGreatest P s.length) :=
    Nat.findGreatest_spec hw.length_le (hP w t hw h)
  refine ⟨_, t', s.drop (Nat.findGreatest P s.length), (List.take_append_drop _ s).symm, h', ?_⟩
  intro w' t'' hw' h''
  rw [List.take_append_drop] at hw'
  have hle := Nat.le_findGreatest hw'.length_le (hP w' t'' hw' h'')
  rw [List.length_take]
  exact Nat.le_min.mpr ⟨hle, hw'.length_le⟩

/-- A longest stretch cannot be made longer. -/
theorem Longest.not_spells {w rest : List Char} {t : Option Token} {c : Char}
    (h : Longest w t (c :: rest)) (t' : Option Token) : ¬ Spells (w ++ [c]) t' := by
  intro h'
  have hle := h.longest (w ++ [c]) t' ⟨rest, by simp⟩ h'
  simp only [List.length_append, List.length_singleton] at hle
  omega

/-! ## 2. The stretches that the scanner takes off -/

/-- What follows a token does not belong to it: a name is not followed by more of a name, nor an
opening parenthesis by the star of a comment. -/
def Token.Apart : Token → List Char → Prop
  | .name _, rest => ∀ c ∈ rest.head?, isNamePart c = false
  | .opening .round, rest => rest.head? ≠ some '*'
  | _, _ => True

/-- A stretch of characters of one kind is taken as far as it goes. -/
theorem span_append {p : Char → Bool} {body rest : List Char} (inside : ∀ c ∈ body, p c = true)
    (ends : ∀ c ∈ rest.head?, p c = false) :
    (body ++ rest).takeWhile p = body ∧ (body ++ rest).dropWhile p = rest := by
  rw [List.takeWhile_append_of_pos inside, List.dropWhile_append_of_pos inside]
  cases rest with
  | nil => exact ⟨List.append_nil body, rfl⟩
  | cons c rest =>
    have hc : ¬ p c = true := by simp [ends c rfl]
    rw [List.takeWhile_cons_of_neg hc, List.dropWhile_cons_of_neg hc]
    exact ⟨List.append_nil body, rfl⟩

theorem afterBlock?_append {rest : List Char} : ∀ {body : List Char}, ¬ ['*', ')'] <:+: body →
    afterBlock? (body ++ '*' :: ')' :: rest) = some rest := by
  intro body hopen
  induction body with
  | nil => rfl
  | cons c body ih =>
    have hnot : ∀ tail, c = '*' → body ++ '*' :: ')' :: rest = ')' :: tail → False := by
      rintro tail rfl htail
      cases body with
      | nil => simp at htail
      | cons d body =>
        obtain rfl : d = ')' := (List.cons.inj htail).1
        exact hopen ⟨[], body, rfl⟩
    rw [List.cons_append, afterBlock?.eq_3 _ _ hnot]
    exact ih fun hin => hopen (hin.trans (List.suffix_cons c body).isInfix)

theorem skipBlanks_block {body rest : List Char} (h : ¬ ['*', ')'] <:+: body) :
    skipBlanks ('(' :: '*' :: (body ++ ['*', ')']) ++ rest) = skipBlanks rest := by
  have hafter : afterBlock? ((body ++ ['*', ')']) ++ rest) = some rest := by
    rw [List.append_assoc]
    exact afterBlock?_append h
  rw [List.cons_append, List.cons_append, skipBlanks]
  split
  · rename_i after heq
    rw [hafter] at heq
    rw [Option.some.inj heq]
  · rename_i heq
    rw [hafter] at heq
    cases heq

theorem skipBlanks_line {body rest : List Char} (h : ∀ c ∈ body, c ≠ '\n' ∧ c ≠ '\r')
    (hend : ∀ c ∈ rest.head?, isInLine c = false) :
    skipBlanks ('/' :: '/' :: body ++ rest) = skipBlanks rest := by
  have hbody : ∀ c ∈ body, isInLine c = true := by
    intro c hc
    simp [isInLine, h c hc]
  rw [List.cons_append, List.cons_append, skipBlanks, (span_append hbody hend).2]

theorem skipBlanks_space {c : Char} (h : Text.isBlank c = true) (rest : List Char) :
    skipBlanks (c :: rest) = skipBlanks rest := by
  have hparen : c ≠ '(' := by
    rintro rfl
    exact absurd h (by decide)
  have hslash : c ≠ '/' := by
    rintro rfl
    exact absurd h (by decide)
  rw [skipBlanks.eq_4 c rest (fun _ hc _ => hparen hc) (fun _ hc _ => hslash hc), if_pos h]

/-- Where no blank and no comment begins, nothing is skipped. -/
theorem skipBlanks_cons {c : Char} {rest : List Char} (hblank : Text.isBlank c = false)
    (hslash : c ≠ '/') (hcomment : ¬ ['(', '*'] <+: c :: rest) :
    skipBlanks (c :: rest) = .ok (c :: rest) := by
  rw [skipBlanks.eq_4 c rest ?_ (fun _ hc _ => hslash hc), hblank]
  · rfl
  · rintro r rfl rfl
    exact hcomment ⟨r, rfl⟩

/-- A delimited token is read up to the next closing delimiter. -/
theorem span_inside {close : Char} {body : List Char} (rest : List Char)
    (h : ∀ c ∈ body, c ≠ close ∧ c ≠ '\n') :
    (body ++ close :: rest).takeWhile (isInside close) = body ∧
      (body ++ close :: rest).dropWhile (isInside close) = close :: rest := by
  refine span_append (fun c hc => by simp [isInside, h c hc]) fun c hc => ?_
  obtain rfl : close = c := Option.some.inj hc
  simp [isInside]

theorem literalPiece_append {quote : Char} {body : List Char} (rest : List Char)
    (h : ∀ c ∈ body, c ≠ quote ∧ c ≠ '\n') :
    literalPiece quote (body ++ quote :: rest)
      = .token (.literal quote (String.ofList body)) rest := by
  obtain ⟨htake, hdrop⟩ := span_inside rest h
  rw [literalPiece, hdrop, htake]
  simp

theorem angledPiece_append {body : List Char} (rest : List Char) (hne : body ≠ [])
    (h : ∀ c ∈ body, c ≠ '>' ∧ c ≠ '\n') :
    angledPiece (body ++ '>' :: rest) = .token (.angled (String.ofList body)) rest := by
  obtain ⟨htake, hdrop⟩ := span_inside rest h
  rw [angledPiece, hdrop, htake]
  cases body with
  | nil => exact absurd rfl hne
  | cons c body => rfl

/-- A name is read as far as it goes. -/
theorem piece_name {c : Char} {cs rest : List Char} (hc : isNameStart c = true)
    (hcs : ∀ d ∈ cs, isNamePart d = true) (hend : ∀ d ∈ rest.head?, isNamePart d = false) :
    piece (c :: (cs ++ rest)) = .token (.name (String.ofList (c :: cs))) rest := by
  obtain ⟨htake, hdrop⟩ := span_append hcs hend
  generalize hs : c :: (cs ++ rest) = s
  unfold piece
  split
  case h_17 c' r _ _ _ _ _ _ _ _ _ _ _ _ _ _ _ =>
    obtain ⟨rfl, rfl⟩ := List.cons.inj hs
    rw [if_pos hc, htake, hdrop]
  case h_1 => cases hs
  all_goals
    obtain ⟨rfl, -⟩ := List.cons.inj hs
    exact absurd hc (by decide)

theorem piece_mark {c : Char} {t : Token} (h : Token.ofMark? c = some t) (rest : List Char) :
    piece (c :: rest) = .token t rest := by
  unfold Token.ofMark? at h
  split at h <;> first | (cases h; rfl) | cases h

/-- **A token is read off the text it is spelled by.** -/
theorem piece_spells {w rest : List Char} {t : Token} (h : Spells w (some t))
    (hapart : t.Apart rest) : piece (w ++ rest) = .token t rest := by
  cases h with
  | name start parts => exact piece_name start parts hapart
  | angled filled inside =>
    rw [List.cons_append, List.append_assoc]
    exact angledPiece_append rest filled inside
  | literal mark inside =>
    rw [List.cons_append, List.append_assoc]
    rcases mark with rfl | rfl
    · exact literalPiece_append rest inside
    · exact literalPiece_append rest inside
  | longDefine => rfl
  | mark h => exact piece_mark h rest

/-- No token begins with a blank or a slash. -/
theorem Spells.not_skipped {w : List Char} {t : Token} (h : Spells w (some t)) :
    ∃ c cs, w = c :: cs ∧ Text.isBlank c = false ∧ c ≠ '/' := by
  have hskipped : ∀ c, Text.isBlank c = true ∨ c = '/' →
      isNameStart c = false ∧ Token.ofMark? c = none ∧ c ≠ '"' ∧ c ≠ '\'' := by
    intro c
    simp only [Text.isBlank, Bool.or_eq_true, beq_iff_eq]
    rintro ((((rfl | rfl) | rfl) | rfl) | rfl) <;> decide
  have hfirst : ∀ c, ¬(Text.isBlank c = true ∨ c = '/') → Text.isBlank c = false ∧ c ≠ '/' := by
    intro c hc
    exact ⟨by simpa using fun hb => hc (.inl hb), fun hs => hc (.inr hs)⟩
  cases h with
  | name start parts =>
    refine ⟨_, _, rfl, hfirst _ fun hs => ?_⟩
    rw [(hskipped _ hs).1] at start
    cases start
  | angled filled inside => exact ⟨_, _, rfl, by decide, by decide⟩
  | literal mark inside =>
    refine ⟨_, _, rfl, hfirst _ fun hs => ?_⟩
    rcases mark with rfl | rfl
    · exact (hskipped _ hs).2.2.1 rfl
    · exact (hskipped _ hs).2.2.2 rfl
  | longDefine => exact ⟨_, _, rfl, by decide, by decide⟩
  | mark h =>
    refine ⟨_, _, rfl, hfirst _ fun hs => ?_⟩
    rw [(hskipped _ hs).2.1] at h
    cases h

/-- The only token that begins with an opening parenthesis is that parenthesis. -/
theorem Spells.paren {w rest r : List Char} {t : Token} (h : Spells w (some t))
    (hw : w ++ rest = '(' :: r) : w = ['('] ∧ t = .opening .round := by
  cases h with
  | name start parts =>
    obtain ⟨rfl, -⟩ := List.cons.inj hw
    exact absurd start (by decide)
  | angled => exact absurd (List.cons.inj hw).1 (by decide)
  | literal mark =>
    obtain ⟨rfl, -⟩ := List.cons.inj hw
    exact absurd mark (by decide)
  | longDefine => exact absurd (List.cons.inj hw).1 (by decide)
  | mark hmark =>
    obtain ⟨rfl, -⟩ := List.cons.inj hw
    cases hmark
    exact ⟨rfl, rfl⟩

/-- A token that is apart from what follows it does not open a comment. -/
theorem Spells.noComment {w rest : List Char} {t : Token} (h : Spells w (some t))
    (hapart : t.Apart rest) : ¬ ['(', '*'] <+: w ++ rest := by
  rintro ⟨r, hr⟩
  obtain ⟨rfl, rfl⟩ := h.paren hr.symm
  exact hapart (List.head?_eq_some_iff.mpr ⟨r, (List.cons.inj hr).2.symm⟩)

/-- Where a token is spelled, nothing is skipped. -/
theorem skipBlanks_spells {w rest : List Char} {t : Token} (h : Spells w (some t))
    (hapart : t.Apart rest) : skipBlanks (w ++ rest) = .ok (w ++ rest) := by
  have hcomment := h.noComment hapart
  obtain ⟨c, cs, rfl, hblank, hslash⟩ := h.not_skipped
  exact skipBlanks_cons hblank hslash hcomment

/-! ## 3. Scanning -/

/-- A text whose first token breaks off, or that has none, is read as no token. -/
theorem scan_of_ending {s source : List Char} {e : Ending} (hs : skipBlanks s = .ok source)
    (hp : piece source = .ending e) : scan s = ([], e) := by
  rw [scan]
  split
  · rename_i hs'
    rw [hs] at hs'
    cases hs'
  · rename_i source' hs'
    rw [hs] at hs'
    cases hs'
    split
    · rename_i hp'
      rw [hp] at hp'
      cases hp'
      rfl
    · rename_i hp'
      rw [hp] at hp'
      cases hp'

theorem scan_of_openComment {s rest : List Char} (hs : skipBlanks s = .error rest) :
    scan s = ([], .openComment rest) := by
  rw [scan]
  split
  · rename_i hs'
    rw [hs] at hs'
    cases hs'
    rfl
  · rename_i hs'
    rw [hs] at hs'
    cases hs'

theorem scan_of_token {s source rest : List Char} {t : Token} (hs : skipBlanks s = .ok source)
    (hp : piece source = .token t rest) :
    scan s = (⟨source, t⟩ :: (scan rest).1, (scan rest).2) := by
  rw [scan]
  split
  · rename_i hs'
    rw [hs] at hs'
    cases hs'
  · rename_i source' hs'
    rw [hs] at hs'
    cases hs'
    split
    · rename_i hp'
      rw [hp] at hp'
      cases hp'
    · rename_i hp'
      rw [hp] at hp'
      cases hp'
      rfl

theorem scan_nil : scan [] = ([], .stop []) := scan_of_ending (by rw [skipBlanks]) rfl

/-- Scanning looks at what is left after the blanks. -/
theorem scan_of_skip {s s' : List Char} (h : skipBlanks s = skipBlanks s') : scan s = scan s' := by
  cases hs : skipBlanks s' with
  | error rest => rw [scan_of_openComment hs, scan_of_openComment (h.trans hs)]
  | ok source =>
    cases hp : piece source with
    | ending e => rw [scan_of_ending hs hp, scan_of_ending (h.trans hs) hp]
    | token t rest => rw [scan_of_token hs hp, scan_of_token (h.trans hs) hp]

/-- **Scanning takes off a token** that a text begins with. -/
theorem scan_spells {w rest : List Char} {t : Token} (h : Spells w (some t))
    (hapart : t.Apart rest) :
    scan (w ++ rest) = (⟨w ++ rest, t⟩ :: (scan rest).1, (scan rest).2) :=
  scan_of_token (skipBlanks_spells h hapart) (piece_spells h hapart)

/-- **Scanning comes to the end of a text** with these tokens.  The rest is empty, so nothing of the
text is left over. -/
def Scans (s : List Char) (ts : List Token) : Prop :=
  (scan s).2 = .stop [] ∧ (scan s).1.map (·.token) = ts

namespace Scans

theorem nil : Scans [] [] := by
  rw [Scans, scan_nil]
  exact ⟨rfl, rfl⟩

theorem skip {s s' : List Char} {ts : List Token} (h : Scans s' ts)
    (hskip : skipBlanks s = skipBlanks s') : Scans s ts := by
  rw [Scans, scan_of_skip hskip]
  exact h

theorem token {w rest : List Char} {t : Token} {ts : List Token} (h : Scans rest ts)
    (hspells : Spells w (some t)) (hapart : t.Apart rest) : Scans (w ++ rest) (t :: ts) := by
  rw [Scans, scan_spells hspells hapart]
  exact ⟨h.1, congrArg (t :: ·) h.2⟩

end Scans

namespace Longest

/-- A longest stretch that is skipped is skipped by the scanner. -/
theorem skipBlanks_eq {w rest : List Char} (h : Longest w none rest) :
    skipBlanks (w ++ rest) = skipBlanks rest := by
  cases h.spells with
  | space blank =>
    refine skipBlanks_space ?_ rest
    rcases blank with rfl | rfl | rfl | rfl <;> rfl
  | block hopen => exact skipBlanks_block hopen
  | line inLine =>
    refine skipBlanks_line inLine fun c hc => ?_
    cases rest with
    | nil => cases hc
    | cons d rest =>
      obtain rfl : d = c := Option.some.inj hc
      by_contra hin
      have hd : d ≠ '\n' ∧ d ≠ '\r' := by simpa [isInLine] using hin
      refine h.not_spells none (Spells.line fun c hc => ?_)
      rcases List.mem_append.mp hc with hc | hc
      · exact inLine c hc
      · exact List.mem_singleton.mp hc ▸ hd

/-- A longest token is apart from what follows it, unless that makes a comment. -/
theorem apart {w rest : List Char} {t : Token} (h : Longest w (some t) rest)
    (hcomment : ¬ ['(', '*'] <+: w ++ rest) : t.Apart rest := by
  cases h.spells with
  | @name c cs start parts =>
    intro d hd
    cases rest with
    | nil => cases hd
    | cons e rest =>
      obtain rfl : e = d := Option.some.inj hd
      by_contra hpart
      refine h.not_spells _ (Spells.name start fun x hx => ?_)
      rcases List.mem_append.mp hx with hx | hx
      · exact parts x hx
      · rw [List.mem_singleton.mp hx]
        simpa using hpart
  | angled | literal | longDefine => trivial
  | @mark c t hmark =>
    unfold Token.ofMark? at hmark
    split at hmark <;> cases hmark <;> try trivial
    intro hstar
    obtain ⟨r, rfl⟩ := List.head?_eq_some_iff.mp hstar
    exact hcomment ⟨r, rfl⟩

end Longest

/-! ## 4. Scanning cuts a text into its longest stretches -/

/-- A text is scanned as it is cut. -/
theorem Splits.scans {s : List Char} {ts : List Token} (h : Splits s ts) : Scans s ts := by
  induction h with
  | done => exact .nil
  | skip first _ ih => exact ih.skip first.skipBlanks_eq
  | token first hcomment _ ih => exact ih.token first.spells (first.apart hcomment)

/-- A block comment that is closed is spelled up to its first end. -/
theorem spells_of_afterBlock? {s rest : List Char} (h : afterBlock? s = some rest) :
    ∃ body, s = body ++ '*' :: ')' :: rest ∧ ¬ ['*', ')'] <:+: body := by
  induction s using afterBlock?.induct with
  | case1 => simp [afterBlock?] at h
  | case2 r =>
    simp only [afterBlock?, Option.some.injEq] at h
    exact ⟨[], by rw [h]; rfl, by simp⟩
  | case3 c r hr ih =>
    rw [afterBlock?.eq_3 _ _ hr] at h
    obtain ⟨body, rfl, hopen⟩ := ih h
    refine ⟨c :: body, rfl, fun hin => ?_⟩
    rcases List.infix_cons_iff.mp hin with hpre | hin
    · -- The end would begin with `c`, but there the scan goes on.
      obtain ⟨tail, htail⟩ := hpre
      obtain ⟨rfl, hbody⟩ := List.cons.inj htail
      exact hr (tail ++ '*' :: ')' :: rest) rfl (by rw [← hbody]; rfl)
    · exact hopen hin

theorem isInLine_iff {c : Char} : isInLine c = true ↔ c ≠ '\n' ∧ c ≠ '\r' := by
  simp [isInLine]

theorem isInside_iff {close c : Char} : isInside close c = true ↔ c ≠ close ∧ c ≠ '\n' := by
  simp [isInside]

/-- What is left of a text where nothing more is skipped.  A comment that is never closed is left
with its opening. -/
def unskipped : Except (List Char) (List Char) → List Char
  | .ok source => source
  | .error rest => '(' :: '*' :: rest

/-- Where the scanner skips something, there is something to skip. -/
theorem spells_of_skipBlanks {s : List Char} (hne : unskipped (skipBlanks s) ≠ s) :
    ∃ w, w <+: s ∧ Spells w none := by
  fun_cases skipBlanks s with
  | case1 =>
    rw [skipBlanks] at hne
    exact absurd rfl hne
  | case2 r after hafter =>
    obtain ⟨body, rfl, hopen⟩ := spells_of_afterBlock? hafter
    exact ⟨_, ⟨after, by simp⟩, .block hopen⟩
  | case3 r hafter =>
    have hskip : skipBlanks ('(' :: '*' :: r) = .error r := by
      rw [skipBlanks]
      split
      · rename_i heq
        rw [hafter] at heq
        cases heq
      · rfl
    rw [hskip] at hne
    exact absurd rfl hne
  | case4 r =>
    refine ⟨'/' :: '/' :: r.takeWhile isInLine, ?_, .line fun c hc => ?_⟩
    · exact ⟨r.dropWhile isInLine, by simp⟩
    · exact isInLine_iff.mp (List.mem_takeWhile_imp hc)
  | case5 c r _ _ hblank =>
    simp only [Text.isBlank, Bool.or_eq_true, beq_iff_eq] at hblank
    refine ⟨[c], ⟨r, rfl⟩, .space ?_⟩
    rcases hblank with ((h | h) | h) | h <;> simp [h]
  | case6 c r hparen hslash hblank =>
    rw [skipBlanks.eq_4 c r hparen hslash, if_neg hblank] at hne
    exact absurd rfl hne

theorem spells_of_literalPiece {quote : Char} {body rest : List Char} {t : Token}
    (hq : quote = '"' ∨ quote = '\'') (h : literalPiece quote body = .token t rest) :
    ∃ w, w ++ rest = quote :: body ∧ Spells w (some t) := by
  unfold literalPiece at h
  split at h
  · rename_i c r hdrop
    split at h
    · rename_i hc
      obtain rfl := beq_iff_eq.mp hc
      cases h
      refine ⟨_, ?_, .literal hq fun d hd => isInside_iff.mp (List.mem_takeWhile_imp hd)⟩
      rw [List.cons_append, List.append_assoc, List.singleton_append, ← hdrop,
        List.takeWhile_append_dropWhile]
    · cases h
  · cases h

theorem spells_of_angledPiece {body rest : List Char} {t : Token}
    (h : angledPiece body = .token t rest) :
    ∃ w, w ++ rest = '<' :: body ∧ Spells w (some t) := by
  unfold angledPiece at h
  split at h
  · rename_i c text r htake hdrop
    cases h
    have hinside : ∀ d ∈ c :: text, d ≠ '>' ∧ d ≠ '\n' := by
      intro d hd
      rw [← htake] at hd
      exact isInside_iff.mp (List.mem_takeWhile_imp hd)
    refine ⟨_, ?_, .angled (List.cons_ne_nil c text) hinside⟩
    rw [List.cons_append, List.append_assoc, List.singleton_append, ← hdrop, ← htake,
      List.takeWhile_append_dropWhile]
  · cases h

/-- Where the scanner reads a token, it is spelled by what is taken off. -/
theorem spells_of_piece {s rest : List Char} {t : Token} (h : piece s = .token t rest) :
    ∃ w, w ++ rest = s ∧ Spells w (some t) := by
  unfold piece at h
  split at h
  case h_1 => cases h
  case h_2 => exact spells_of_literalPiece (.inl rfl) h
  case h_3 => exact spells_of_literalPiece (.inr rfl) h
  case h_4 => exact spells_of_angledPiece h
  case h_5 r =>
    cases h
    exact ⟨_, rfl, .longDefine⟩
  case h_17 c r _ _ _ _ _ _ _ _ _ _ _ _ _ _ _ =>
    split at h
    · rename_i hc
      cases h
      refine ⟨c :: r.takeWhile isNamePart, ?_, .name hc fun d hd => ?_⟩
      · rw [List.cons_append, List.takeWhile_append_dropWhile]
      · exact List.mem_takeWhile_imp hd
    · cases h
  all_goals
    cases h
    exact ⟨_, rfl, .mark rfl⟩

/-- Scanning stops at once only where nothing is taken off. -/
theorem piece_stop {s rest : List Char} (h : piece s = .ending (.stop rest)) : rest = s := by
  unfold piece at h
  split at h
  case h_2 | h_3 =>
    unfold literalPiece at h
    split at h
    · split at h <;> cases h
    · cases h
  case h_4 =>
    unfold angledPiece at h
    split at h <;> cases h
  case h_17 =>
    split at h
    · cases h
    · cases h
      rfl
  all_goals cases h
  rfl

/-- Where a comment opens, but a token is the longest stretch, the comment is never closed. -/
theorem Longest.openComment {w rest : List Char} {t : Token} (h : Longest w (some t) rest)
    (hcomment : ['(', '*'] <+: w ++ rest) :
    ∃ r, w ++ rest = '(' :: '*' :: r ∧ skipBlanks (w ++ rest) = .error r := by
  obtain ⟨r, hr⟩ := hcomment
  obtain ⟨rfl, -⟩ := h.spells.paren hr.symm
  refine ⟨r, hr.symm, ?_⟩
  rw [← hr, List.cons_append, List.cons_append, List.nil_append, skipBlanks]
  split
  · rename_i after hafter
    obtain ⟨body, rfl, hopen⟩ := spells_of_afterBlock? hafter
    have hle := h.longest _ _ ⟨after, by rw [← hr]; simp⟩ (Spells.block hopen)
    simp only [List.length_cons, List.length_append] at hle
    omega
  · rfl

/-- A text that is scanned to its end, and has one, begins with something that is spelled. -/
theorem Scans.exists_spells {s : List Char} {ts : List Token} (h : Scans s ts) (hs : s ≠ []) :
    ∃ w t, w <+: s ∧ Spells w t := by
  cases hskip : skipBlanks s with
  | error rest =>
    rw [Scans, scan_of_openComment hskip] at h
    cases h.1
  | ok source =>
    by_cases hsource : source = s
    · subst hsource
      cases hp : piece source with
      | token t rest =>
        obtain ⟨w, hw, ht⟩ := spells_of_piece hp
        exact ⟨w, some t, ⟨rest, hw⟩, ht⟩
      | ending e =>
        rw [Scans, scan_of_ending hskip hp] at h
        obtain rfl : e = .stop [] := h.1
        exact absurd (piece_stop hp).symm hs
    · obtain ⟨w, hw, ht⟩ := spells_of_skipBlanks (by rwa [hskip])
      exact ⟨w, none, hw, ht⟩

/-- **A text is cut as it is scanned.** -/
theorem Scans.splits {s : List Char} {ts : List Token} (h : Scans s ts) : Splits s ts := by
  induction hn : s.length using Nat.strong_induction_on generalizing s ts with
  | _ n ih =>
    by_cases hs : s = []
    · subst hs
      rw [Scans, scan_nil] at h
      rw [← h.2]
      exact .done
    · obtain ⟨w₀, t₀, hw₀, ht₀⟩ := h.exists_spells hs
      obtain ⟨w, t, rest, rfl, hlongest⟩ := exists_longest ht₀ hw₀
      have hlt : rest.length < n := by
        have := List.length_pos_of_ne_nil hlongest.spells.ne_nil
        rw [List.length_append] at hn
        omega
      cases t with
      | none =>
        rw [Scans, scan_of_skip hlongest.skipBlanks_eq] at h
        exact .skip hlongest (ih _ hlt h rfl)
      | some t =>
        by_cases hcomment : ['(', '*'] <+: w ++ rest
        · obtain ⟨r, -, hr⟩ := hlongest.openComment hcomment
          rw [Scans, scan_of_openComment hr] at h
          cases h.1
        · rw [Scans, scan_spells hlongest.spells (hlongest.apart hcomment)] at h
          obtain ⟨hstop, rfl⟩ := h
          exact .token hlongest hcomment (ih _ hlt ⟨hstop, rfl⟩ rfl)

/-- **A text is scanned to its end exactly if it can be cut into tokens,** and these are they. -/
theorem splits_iff_scans {s : List Char} {ts : List Token} : Splits s ts ↔ Scans s ts :=
  ⟨Splits.scans, Scans.splits⟩

end Railroad.Ebnf
