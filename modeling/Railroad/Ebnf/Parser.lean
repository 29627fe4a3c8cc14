/-
# Reading a grammar

    grammar    = { production } .
    production = name ( "=" | "::=" ) expression ( "." | ";" ) .
    expression = term { "|" term } .
    term       = { factor } .
    factor     = name | literal | "(" expression ")" | "[" expression "]"
               | "{" expression "}" [ "+" ] .

A term without factors is the empty word, a single factor or term stands for itself, and
parentheses leave nothing behind.  An empty literal is the empty word.

The reader takes one token after the other and keeps what it has read so far as a value of
`State`: between two productions, behind the name of one, or inside a right-hand side.  There
the innermost open bracket is what is being filled (a `Frame`), and the frames around it wait on
a stack.  So `State.next` is a function of one token, and a text is read by one pass over its
tokens.

A token that cannot come next is a mistake, and `State.wanted` says what could have come.  A
token that breaks off is reported as such, but only where a token of its kind may stand.

The notation can as well be read by recursive descent, one function for each line of the grammar
above, with alternatives that are tried in turn and cuts behind which no other one is tried.  That
reader works on characters, not on tokens, and its mistakes come of which parser failed last.  It is
written down in `Railroad.Proofs.Ebnf.Descent`, and `Railroad.Proofs.Ebnf.Agreement` shows that both
answer the same to every text, productions and diagnostics alike.
-/
import Railroad.Ebnf.Token
import Railroad.Expr.Basic
import Railroad.Text.Quoted

namespace Railroad.Ebnf

/-! ## 1. What is being read -/

/-- **An expression that is still open:** its finished terms and the factors of the term that
is being read, both with the last one first. -/
structure Frame where
  terms : List Expr := []
  factors : List Expr := []

namespace Frame

/-- The term that is being read, as it stands, `term`: nothing is the empty word, and a single
factor no sequence. -/
def term (f : Frame) : Expr :=
  match f.factors with
  | [] => .empty
  | [factor] => factor
  | factors => .sequence factors.reverse

/-- The expression, as it stands, `expression`: a single term is no alternation. -/
def expr (f : Frame) : Expr :=
  match f.terms with
  | [] => f.term
  | terms => .alternation (f.term :: terms).reverse

/-- One more factor. -/
def push (f : Frame) (factor : Expr) : Frame := { f with factors := factor :: f.factors }

/-- The term is finished and another one begins. -/
def bar (f : Frame) : Frame := ⟨f.term :: f.terms, []⟩

end Frame

/-- The expression that a pair of brackets makes of its content. -/
def Bracket.wrap : Bracket → Expr → Expr
  | .round, e => e
  | .square, e => .optional e
  | .curly, e => .repetition e

/-- **How far the reader is.**  Brackets are kept on a list and not in calls that are still open, so
a text of any depth is read in the same way. -/
inductive State where
  /-- Where a production may begin. -/
  | between
  /-- Behind the name of a production. -/
  | named (name : String)
  /-- In a right-hand side.  `outer` holds the open brackets with what stands before them,
  innermost first; `repeated` says that the last token closed a repetition. -/
  | body (name : String) (outer : List (Bracket × Frame)) (frame : Frame) (repeated : Bool)

/-- What would have been right.  It is told in the help of a diagnostic. -/
inductive Expectation where
  | production | definition | terminator | closing (bracket : Bracket)
deriving Repr, DecidableEq

/-- An expectation in words. -/
def Expectation.text : Expectation → String
  | .production => "a production"
  | .definition => "`=` or `::=`"
  | .terminator => "`|`, a factor, `.` or `;`"
  | .closing bracket => "`" ++ bracket.right.toString ++ "`"

namespace State

/-- What is named as missing when a token cannot come next. -/
def wanted : State → Expectation
  | .between => .production
  | .named _ => .definition
  | .body _ [] _ _ => .terminator
  | .body _ ((bracket, _) :: _) _ _ => .closing bracket

/-- A token of this kind may come next, so one that breaks off is reported as such. -/
def awaits : State → Code → Bool
  | .between, .unterminatedName => true
  | .body _ _ _ _, _ => true
  | _, _ => false

/-- **Takes one token:** the new state, and the production that the token completes, if any.  A plus
sign may stand only right behind a closed repetition; one behind anything else cannot come next.  A
token that cannot come next leaves the reader without a state; what would have been right is told by
the state before it. -/
def next : State → Token → Option (State × Option Production)
  | .between, .name text => some (.named text, none)
  | .between, .angled text => some (.named text, none)
  | .named name, .define _ => some (.body name [] {} false, none)
  | .body name outer frame repeated, token =>
    let go (frame : Frame) : Option (State × Option Production) :=
      some (.body name outer frame false, none)
    match token with
    | .name text => go (frame.push (.identifier ⟨text, {}⟩))
    | .angled text => go (frame.push (.identifier ⟨text, {}⟩))
    | .literal _ text => go (frame.push (if text.isEmpty then .empty else .literal ⟨text, {}⟩))
    | .bar => go frame.bar
    | .plus =>
      match repeated, frame.factors with
      | true, .repetition inner :: factors => go { frame with factors := .oneOrMore inner :: factors }
      | _, _ => none
    | .opening bracket => some (.body name ((bracket, frame) :: outer) {} false, none)
    | .closing bracket =>
      match outer with
      | (opened, before) :: outer =>
        if opened = bracket then
          let factor := bracket.wrap frame.expr
          some (.body name outer (before.push factor) (bracket == .curly), none)
        else none
      | [] => none
    | .terminator _ =>
      match outer with
      | [] => some (.between, some ⟨name, frame.expr⟩)
      | _ :: _ => none
    | .define _ => none
  | _, _ => none

end State

/-! ## 2. The whole text -/

/-- Why a text is no grammar. -/
inductive Cause where
  /-- Nothing that could come here. -/
  | unexpected (wanted : Expectation)
  /-- Something is opened and never closed. -/
  | unterminated (code : Code) (wanted : Option Expectation)
deriving Repr, DecidableEq

/-- **A mistake:** its cause, and the source from the place on where it shows. -/
structure Mistake where
  source : List Char
  cause : Cause
deriving Repr, DecidableEq

/-- What the end of scanning means to a reader that is so far.  The end of the text is right between
two productions only; a comment that is never closed is a mistake everywhere. -/
def State.atEnd (state : State) (done : List Production) : Ending → Except Mistake (List Production)
  | .stop [] =>
    match state with
    | .between => .ok done.reverse
    | _ => .error ⟨[], .unexpected state.wanted⟩
  | .stop rest => .error ⟨rest, .unexpected state.wanted⟩
  | .openComment rest =>
    let wanted := match state with
      | .named _ => some state.wanted
      | _ => none
    .error ⟨rest, .unterminated .unterminatedComment wanted⟩
  | .openToken code start rest =>
    if state.awaits code then .error ⟨rest, .unterminated code none⟩
    else .error ⟨start, .unexpected state.wanted⟩

/-- Reads the tokens that are left; `done` are the productions so far, last first. -/
def State.run (state : State) (done : List Production) (ending : Ending) :
    List Lexeme → Except Mistake (List Production)
  | [] => state.atEnd done ending
  | lexeme :: lexemes =>
    match state.next lexeme.token with
    | none => .error ⟨lexeme.source, .unexpected state.wanted⟩
    | some (state, production?) => state.run (production?.toList ++ done) ending lexemes

/-- **Reads the characters of a grammar.**  Scanning does not depend on what the reader makes of the
tokens. -/
def parseChars (s : List Char) : Except Mistake (List Production) :=
  let (lexemes, ending) := scan s
  State.between.run [] ending lexemes

/-- How many bytes characters take in UTF-8. -/
def byteLength : List Char → Nat
  | [] => 0
  | c :: s => c.utf8Size + byteLength s

/-- **A mistake as a diagnostic** with one label, on the character where the mistake shows or,
at the end of the text, on nothing. -/
def Mistake.toDiagnostic (source : List Char) (m : Mistake) : Diagnostic :=
  let start := byteLength source - byteLength m.source
  let span := Span.ofRange start (start + byteLength (m.source.take 1))
  let label (message : String) : List Label := [⟨span, message, true⟩]
  let help (wanted : Expectation) : String := "expected " ++ wanted.text
  match m.cause, m.source with
  | .unterminated code wanted, _ =>
    { message := code.description, code := some code, labels := label "missing closing delimiter"
      help := wanted.map help }
  | .unexpected wanted, c :: _ =>
    { message := "unexpected character `" ++ Text.escapeAscii c ++ "`"
      code := some .unexpectedCharacter, labels := label "not expected here"
      help := some (help wanted) }
  | .unexpected wanted, [] =>
    { message := "unexpected end of input", code := some .incompleteInput
      labels := label "input ends here", help := some (help wanted) }

/-- **Reads a grammar,** `parse_grammar`: its productions in the order of the text, or one
diagnostic. -/
def parse (text : String) : Except ParseError (List Production) :=
  (parseChars text.toList).mapError fun m => ⟨[m.toDiagnostic text.toList]⟩

end Railroad.Ebnf
