/-
# Tokens of the grammar notation

A grammar text is a run of names, quoted literals and punctuation, with blanks and comments
between them.  `scan` cuts it up, each token as long as it can be.

Every token is kept with the text from its first character on (`Lexeme.source`), so that a mistake
can be located by what is left of the source there.  Scanning goes on for as long as it can;
`Ending` says how it came to an end: with the text, at a character that starts no token, or
inside a comment, literal or name that is never closed.

Scanning never fails.  Whether the end it came to is a mistake, and which, depends on what was being
read there, and that only the reader knows (`State.atEnd`).  So all of a text is cut up before any
of it is read, and a mistake further on cannot hide one before it: the reader takes the tokens in
order and meets the earlier one first.

Comments are of two kinds, from `(*` to `*)` and from `//` to the end of the line.  They do not
nest.
-/
import Railroad.Ebnf.Diagnostic
import Railroad.Text.Character

namespace Railroad.Ebnf

/-- The three pairs of brackets. -/
inductive Bracket where
  | round | square | curly
deriving Repr, DecidableEq

/-- Where a pair of brackets opens. -/
def Bracket.left : Bracket → Char
  | .round => '('
  | .square => '['
  | .curly => '\x7b'

/-- Where a pair of brackets closes. -/
def Bracket.right : Bracket → Char
  | .round => ')'
  | .square => ']'
  | .curly => '\x7d'

/-- **A token.**  Names and literals have the text between their delimiters; what can be written in
two ways remembers in which it was. -/
inductive Token where
  | name (text : String)
  /-- A name in angle brackets, which may hold anything but `>` and a line break. -/
  | angled (text : String)
  /-- A text between two `quote`s, which holds neither a `quote` nor a line break. -/
  | literal (quote : Char) (text : String)
  /-- One of the two definition signs, `=` and `::=`. -/
  | define (long : Bool)
  /-- One of the two ends of a production, `.` and `;`. -/
  | terminator (mark : Char)
  | bar
  | plus
  | opening (bracket : Bracket)
  | closing (bracket : Bracket)
deriving Repr, DecidableEq

/-- A token and the source from its first character on. -/
structure Lexeme where
  source : List Char
  token : Token
deriving Repr, DecidableEq

/-- **How scanning ends.**  The text that is left is kept with each of them, since that is where a
mistake is shown. -/
inductive Ending where
  /-- No token starts at what is left, which is nothing at the end of the text. -/
  | stop (rest : List Char)
  /-- A comment is never closed; `rest` follows its opening. -/
  | openComment (rest : List Char)
  /-- The literal or name that starts at `start` breaks off at `rest`. -/
  | openToken (code : Code) (start rest : List Char)
deriving Repr, DecidableEq

/-! ## 1. Blanks and comments -/

/-- What follows the end of a block comment, `block_comment`, if it is ever closed. -/
def afterBlock? : List Char → Option (List Char)
  | [] => none
  | '*' :: ')' :: rest => some rest
  | _ :: rest => afterBlock? rest

theorem afterBlock?_length {s rest : List Char} (h : afterBlock? s = some rest) :
    rest.length < s.length := by
  induction s using afterBlock?.induct with
  | case1 => simp [afterBlock?] at h
  | case2 r => simp only [afterBlock?, Option.some.injEq] at h; simp only [← h, List.length_cons]; omega
  | case3 c r hr ih =>
    rw [afterBlock?] at h
    · have := ih h; simp only [List.length_cons]; omega
    · exact hr

/-- Not the end of a line. -/
def isInLine (c : Char) : Bool := c != '\n' && c != '\r'

/-- **Drops blanks and comments,** `ws`: what is left, or what follows the opening of a comment that
is never closed. -/
def skipBlanks : List Char → Except (List Char) (List Char)
  | [] => .ok []
  | '(' :: '*' :: rest =>
    match _h : afterBlock? rest with
    | some after => skipBlanks after
    | none => .error rest
  | '/' :: '/' :: rest => skipBlanks (rest.dropWhile isInLine)
  | c :: rest => if Text.isBlank c then skipBlanks rest else .ok (c :: rest)
termination_by s => s.length
decreasing_by
  · have := afterBlock?_length _h
    simp only [List.length_cons]
    omega
  · have : (rest.dropWhile isInLine).length ≤ rest.length := (List.dropWhile_suffix _).length_le
    simp only [List.length_cons]
    omega
  · simp

/-! ## 2. One token -/

/-- The first character of a name. -/
def isNameStart (c : Char) : Bool := Text.isAlphabetic c || c == '_'

/-- A further character of a name. -/
def isNamePart (c : Char) : Bool := Text.isAlphanumeric c || c == '_' || c == '-'

/-- What a delimited token may hold: no line break and not its closing delimiter. -/
def isInside (close c : Char) : Bool := c != close && c != '\n'

/-- The next token and what follows it, or the end of scanning. -/
inductive Piece where
  | token (token : Token) (rest : List Char)
  | ending (ending : Ending)
deriving Repr, DecidableEq

/-- A literal from its opening `quote` on, `quoted`; `body` follows the quote.  It is closed by the
same quote on the same line, or it breaks off. -/
def literalPiece (quote : Char) (body : List Char) : Piece :=
  match body.dropWhile (isInside quote) with
  | c :: rest =>
    if c == quote then .token (.literal quote (String.ofList (body.takeWhile (isInside quote)))) rest
    else .ending (.openToken .unterminatedLiteral (quote :: body) (c :: rest))
  | [] => .ending (.openToken .unterminatedLiteral (quote :: body) [])

/-- A name in angle brackets; `body` follows the opening one. -/
def angledPiece (body : List Char) : Piece :=
  match body.takeWhile (isInside '>'), body.dropWhile (isInside '>') with
  | c :: text, '>' :: rest => .token (.angled (String.ofList (c :: text))) rest
  | _, rest => .ending (.openToken .unterminatedName ('<' :: body) rest)

/-- **The token at the start of a text** without leading blanks.  A bare name goes on for as long as
there are characters of names. -/
def piece : List Char → Piece
  | [] => .ending (.stop [])
  | '"' :: body => literalPiece '"' body
  | '\'' :: body => literalPiece '\'' body
  | '<' :: body => angledPiece body
  | ':' :: ':' :: '=' :: rest => .token (.define true) rest
  | '=' :: rest => .token (.define false) rest
  | '.' :: rest => .token (.terminator '.') rest
  | ';' :: rest => .token (.terminator ';') rest
  | '|' :: rest => .token .bar rest
  | '+' :: rest => .token .plus rest
  | '(' :: rest => .token (.opening .round) rest
  | '[' :: rest => .token (.opening .square) rest
  | '\x7b' :: rest => .token (.opening .curly) rest
  | ')' :: rest => .token (.closing .round) rest
  | ']' :: rest => .token (.closing .square) rest
  | '\x7d' :: rest => .token (.closing .curly) rest
  | c :: rest =>
    if isNameStart c then
      .token (.name (String.ofList (c :: rest.takeWhile isNamePart))) (rest.dropWhile isNamePart)
    else .ending (.stop (c :: rest))

theorem literalPiece_length {quote : Char} {body rest : List Char} {t : Token}
    (h : literalPiece quote body = .token t rest) : rest.length ≤ body.length := by
  have hle : (body.dropWhile (isInside quote)).length ≤ body.length :=
    (List.dropWhile_suffix _).length_le
  unfold literalPiece at h
  split at h
  · rename_i c r hr
    rw [hr] at hle
    split at h
    · cases h
      exact Nat.le_of_succ_le hle
    · cases h
  · cases h

theorem angledPiece_length {body rest : List Char} {t : Token}
    (h : angledPiece body = .token t rest) : rest.length ≤ body.length := by
  have hle : (body.dropWhile (isInside '>')).length ≤ body.length :=
    (List.dropWhile_suffix _).length_le
  unfold angledPiece at h
  split at h
  · rename_i _ r hr
    rw [hr] at hle
    cases h
    exact Nat.le_of_succ_le hle
  · cases h

/-- A token takes at least one character. -/
theorem piece_length {s rest : List Char} {t : Token} (h : piece s = .token t rest) :
    rest.length < s.length := by
  unfold piece at h
  split at h
  case h_2 => exact Nat.lt_succ_of_le (literalPiece_length h)
  case h_3 => exact Nat.lt_succ_of_le (literalPiece_length h)
  case h_4 => exact Nat.lt_succ_of_le (angledPiece_length h)
  case h_17 c r _ _ _ _ _ _ _ _ _ _ _ _ _ _ _ =>
    split at h
    · cases h
      exact Nat.lt_succ_of_le (List.dropWhile_suffix _).length_le
    · cases h
  all_goals cases h
  all_goals simp only [List.length_cons]
  all_goals omega

/-! ## 3. The whole text -/

theorem skipBlanks_length {s rest : List Char} (h : skipBlanks s = .ok rest) :
    rest.length ≤ s.length := by
  fun_induction skipBlanks s with
  | case1 => cases h; simp
  | case2 r after hafter ih =>
    have := ih h
    have := afterBlock?_length hafter
    simp only [List.length_cons]
    omega
  | case3 => cases h
  | case4 r ih =>
    have := ih h
    have : (r.dropWhile isInLine).length ≤ r.length := (List.dropWhile_suffix _).length_le
    simp only [List.length_cons]
    omega
  | case5 c r _ _ _ ih => exact Nat.le_succ_of_le (ih h)
  | case6 => cases h; simp

/-- **Cuts a text into tokens,** the first one first, and says how it ends.  A token has the source
with it from its first character on. -/
def scan (s : List Char) : List Lexeme × Ending :=
  match _hs : skipBlanks s with
  | .error rest => ([], .openComment rest)
  | .ok source =>
    match _hp : piece source with
    | .ending e => ([], e)
    | .token token rest =>
      let (lexemes, ending) := scan rest
      (⟨source, token⟩ :: lexemes, ending)
termination_by s.length
decreasing_by
  have := skipBlanks_length _hs
  have := piece_length _hp
  omega

end Railroad.Ebnf
