/-
# How a mistake comes about

The reader takes token after token until one cannot come next, or until scanning ends where a
grammar does not.  `State.Fails` says so for a reader that is so far and the text that is left, with
one rule for each way: a comment that is never closed, a text that stops, a literal or name that
breaks off (`OpensToken`), and a token that is refused, each of them behind any number of tokens that
are taken.

Whatever is to be said of a mistake is an induction on that (`State.fails_of_run`).

The relation follows the text and not the scanner's list of lexemes, since all that is said about a
mistake later is about the text: what stands before it, what stands at it and how long that is.
`State.fails_of_run` is therefore the one place where the loop of `State.run` is opened for
failures, and the only one that knows how the end of scanning is told apart from a token that does
not fit.  The proofs that follow have one case for each rule, and the rule for tokens that are taken
is where the induction hypothesis is.
-/
import Railroad.Proofs.Ebnf.Reader

namespace Railroad.Ebnf

/-! ## 1. Where scanning ends -/

/-- Where skipping stops, no comment is opened. -/
theorem not_comment_of_skipBlanks {s source : List Char} (h : skipBlanks s = .ok source) :
    ¬ ['(', '*'] <+: source := by
  fun_induction skipBlanks s with
  | case1 =>
    cases h
    decide
  | case2 _ _ _ ih | case4 _ ih | case5 _ _ _ _ _ ih => exact ih h
  | case3 => cases h
  | case6 c r hparen _ _ =>
    cases h
    rintro ⟨tail, htail⟩
    obtain ⟨rfl, rfl⟩ := List.cons.inj htail
    exact hparen tail rfl rfl

/-- **A literal or a name is opened and breaks off** at `rest`: at the end of the line or of the
text, or, if it is a name that nothing is in, where it is closed.  The line matters because neither
literals nor names go over its end. -/
inductive OpensToken : Code → List Char → List Char → Prop where
  | literal {quote : Char} {body rest : List Char} (mark : quote = '"' ∨ quote = '\'')
    (inside : ∀ c ∈ body, c ≠ quote ∧ c ≠ '\n') (breaks : ∀ c ∈ rest.head?, c = '\n') :
    OpensToken .unterminatedLiteral (quote :: (body ++ rest)) rest
  | name {body rest : List Char} (inside : ∀ c ∈ body, c ≠ '>' ∧ c ≠ '\n')
    (breaks : ∀ c ∈ rest.head?, c = '\n' ∨ c = '>' ∧ body = []) :
    OpensToken .unterminatedName ('<' :: (body ++ rest)) rest

/-- What follows the inside of a delimited token is its closing delimiter or a line break. -/
theorem head?_dropWhile_isInside {close c : Char} {body : List Char}
    (h : (body.dropWhile (isInside close)).head? = some c) : c = close ∨ c = '\n' := by
  have hnot := List.head?_dropWhile_not (isInside close) body
  rw [h] at hnot
  simpa [isInside, Classical.or_iff_not_imp_left] using hnot

theorem literalPiece_ending {quote : Char} (hq : quote = '"' ∨ quote = '\'') {body : List Char}
    {e : Ending} (h : literalPiece quote body = .ending e) : ∃ rest,
    e = .openToken .unterminatedLiteral (quote :: body) rest ∧
      OpensToken .unterminatedLiteral (quote :: body) rest := by
  have hopens (hbreaks : ∀ c ∈ (body.dropWhile (isInside quote)).head?, c = '\n') :
      OpensToken .unterminatedLiteral (quote :: body) (body.dropWhile (isInside quote)) := by
    have hinside : ∀ c ∈ body.takeWhile (isInside quote), c ≠ quote ∧ c ≠ '\n' := fun c hc =>
      isInside_iff.mp (List.mem_takeWhile_imp hc)
    have hall := OpensToken.literal hq hinside hbreaks
    rwa [List.takeWhile_append_dropWhile] at hall
  unfold literalPiece at h
  split at h
  case h_1 c rest hdrop =>
    split at h
    case isTrue => cases h
    case isFalse hc =>
      cases h
      rw [hdrop] at hopens
      refine ⟨_, rfl, hopens fun d hd => ?_⟩
      obtain rfl : c = d := Option.some.inj hd
      have hcase := head?_dropWhile_isInside (by rw [hdrop]; rfl : _ = some c)
      exact hcase.resolve_left fun heq => hc (beq_iff_eq.mpr heq)
  case h_2 hdrop =>
    cases h
    rw [hdrop] at hopens
    exact ⟨_, rfl, hopens fun c hc => by cases hc⟩

theorem angledPiece_ending {body : List Char} {e : Ending} (h : angledPiece body = .ending e) :
    ∃ rest, e = .openToken .unterminatedName ('<' :: body) rest ∧
      OpensToken .unterminatedName ('<' :: body) rest := by
  unfold angledPiece at h
  split at h
  case h_1 => cases h
  case h_2 hnot =>
    cases h
    have hinside : ∀ c ∈ body.takeWhile (isInside '>'), c ≠ '>' ∧ c ≠ '\n' := fun c hc =>
      isInside_iff.mp (List.mem_takeWhile_imp hc)
    have hbreaks : ∀ c ∈ (body.dropWhile (isInside '>')).head?,
        c = '\n' ∨ c = '>' ∧ body.takeWhile (isInside '>') = [] := by
      intro c hc
      rcases head?_dropWhile_isInside hc with rfl | rfl
      · -- A name that is closed is read unless it is empty.
        obtain ⟨rest, hrest⟩ := List.head?_eq_some_iff.mp hc
        refine .inr ⟨rfl, ?_⟩
        cases htake : body.takeWhile (isInside '>') with
        | nil => rfl
        | cons d text => exact absurd hrest (hnot d text rest htake)
      · exact .inl rfl
    have hall := OpensToken.name hinside hbreaks
    rw [List.takeWhile_append_dropWhile] at hall
    exact ⟨_, rfl, hall⟩

/-- **Where no token is read, none begins, or one breaks off.** -/
theorem piece_ending {s : List Char} {e : Ending} (h : piece s = .ending e) :
    e = .stop s ∨ ∃ code rest, e = .openToken code s rest ∧ OpensToken code s rest := by
  unfold piece at h
  split at h
  case h_1 =>
    cases h
    exact .inl rfl
  case h_2 => exact .inr ⟨_, literalPiece_ending (.inl rfl) h⟩
  case h_3 => exact .inr ⟨_, literalPiece_ending (.inr rfl) h⟩
  case h_4 => exact .inr ⟨_, angledPiece_ending h⟩
  case h_17 =>
    split at h <;> cases h
    exact .inl rfl
  all_goals cases h

/-! ## 2. How reading fails -/

namespace State

/-- **A reader that is so far fails on a text,** with a mistake. -/
inductive Fails : State → List Char → Mistake → Prop where
  | openComment {state : State} {s rest : List Char} (wanted : Option Expectation)
    (hs : skipBlanks s = .error rest) :
    Fails state s ⟨rest, .unterminated .unterminatedComment wanted⟩
  /-- The text stops, or goes on with a character that begins no token. -/
  | stop {state : State} {s source : List Char} (hs : skipBlanks s = .ok source)
    (hp : piece source = .ending (.stop source)) :
    Fails state s ⟨source, .unexpected state.wanted⟩
  | breaksOff {state : State} {s source rest : List Char} {code : Code}
    (hs : skipBlanks s = .ok source) (hp : OpensToken code source rest)
    (hawaits : state.awaits code = true) : Fails state s ⟨rest, .unterminated code none⟩
  /-- A token breaks off where none of its kind may stand. -/
  | outOfPlace {state : State} {s source rest : List Char} {code : Code}
    (hs : skipBlanks s = .ok source) (hp : piece source = .ending (.openToken code source rest))
    (hawaits : state.awaits code = false) : Fails state s ⟨source, .unexpected state.wanted⟩
  | refused {state : State} {s source rest : List Char} {t : Token}
    (hs : skipBlanks s = .ok source) (hp : piece source = .token t rest)
    (hnext : state.next t = none) : Fails state s ⟨source, .unexpected state.wanted⟩
  | onward {state state' : State} {s source rest : List Char} {t : Token} {p? : Option Production}
    {m : Mistake} (hs : skipBlanks s = .ok source) (hp : piece source = .token t rest)
    (hnext : state.next t = some (state', p?)) (h : Fails state' rest m) : Fails state s m

/-- **Where reading comes to a mistake, it fails** in one of these ways. -/
theorem fails_of_run {s : List Char} : ∀ {state : State} {done : List Production} {m : Mistake},
    state.run done (scan s).2 (scan s).1 = .error m → state.Fails s m := by
  -- By the length of the text: blanks and comments are skipped before each token, so what is left
  -- behind a token is not just the text without its first character.
  induction hn : s.length using Nat.strong_induction_on generalizing s with
  | _ n ih =>
    intro state done m h
    cases hs : skipBlanks s with
    | error rest =>
      rw [scan_of_openComment hs, run] at h
      cases state <;> cases h <;> exact .openComment _ hs
    | ok source =>
      cases hp : piece source with
      | ending e =>
        rw [scan_of_ending hs hp, run] at h
        rcases piece_ending hp with rfl | ⟨code, rest, rfl, hopens⟩
        · cases source with
          | nil => cases state <;> cases h <;> exact .stop hs hp
          | cons =>
            cases h
            exact .stop hs hp
        · rw [atEnd] at h
          split at h
          case isTrue hawaits =>
            cases h
            exact .breaksOff hs hopens hawaits
          case isFalse hawaits =>
            cases h
            exact .outOfPlace hs hp (Bool.not_eq_true _ ▸ hawaits)
      | token t rest =>
        rw [scan_of_token hs hp, run] at h
        split at h
        case h_1 hnext =>
          cases h
          exact .refused hs hp hnext
        case h_2 state' p? hnext =>
          have hlt : rest.length < n := by
            have hskipped := skipBlanks_length hs
            have hpiece := piece_length hp
            omega
          exact .onward hs hp hnext (ih _ hlt rfl h)

end State

/-! ## 3. Mistakes as diagnostics -/

theorem byteLength_eq (s : List Char) : byteLength s = (String.ofList s).utf8ByteSize := by
  induction s with
  | nil => rfl
  | cons c s ih =>
    have hcons : String.ofList (c :: s) = String.singleton c ++ String.ofList s := by
      rw [String.singleton_eq_ofList, ← String.ofList_append, List.singleton_append]
    rw [byteLength, ih, hcons, String.utf8ByteSize_append, String.utf8ByteSize_singleton]

theorem byteLength_append (s s' : List Char) :
    byteLength (s ++ s') = byteLength s + byteLength s' := by
  simp only [byteLength_eq, String.ofList_append, String.utf8ByteSize_append]

/-- **A mistake is labelled where it shows:** on the character there, or, at the end of the text, on
nothing. -/
theorem Mistake.labels_eq (before : List Char) (m : Mistake) : ∃ message,
    (m.toDiagnostic (before ++ m.source)).labels = [⟨Span.ofRange (byteLength before)
      (byteLength (before ++ m.source.take 1)), message, true⟩] := by
  have hstart : byteLength (before ++ m.source) - byteLength m.source = byteLength before := by
    rw [byteLength_append, Nat.add_sub_cancel]
  rw [byteLength_append before (m.source.take 1)]
  unfold toDiagnostic
  rw [hstart]
  split <;> exact ⟨_, rfl⟩

end Railroad.Ebnf
