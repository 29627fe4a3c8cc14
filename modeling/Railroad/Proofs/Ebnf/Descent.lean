/-
# The notation by recursive descent

The reader takes token after token and keeps the open brackets on a stack.  The notation can also be
read without tokens and without a stack: one parser for each rule, which takes what it wants off the
characters and calls the parsers of the rules inside it.  Here is that way of reading, put together from
the usual combinators; that both come to the same is shown in `Railroad.Proofs.Ebnf.Agreement`.

What a parser replies (`Reply`) says how it ended and where:

* it is *done*, with a value;
* it went *back*: nothing of its kind is here, and another parser may be tried at the place where it
  started;
* it was *cut*: something of its kind was begun and cannot be right, so nothing else is tried.

The cut points are `committed`: behind the name of a production, behind an open bracket, behind the
quote of a literal, the `<` of a name and the opening of a comment.  Before them `alt` tries the next
alternative, `opt` goes without and `many` stops.  A reply that is no success collects on its way out
what was being read (`within`), and the diagnostic is made of that (`toDiagnostic`).

The rules call each other in a circle, through brackets.  `factor` takes how deep brackets may be nested
from there on; a text has no deeper brackets than characters.
-/
import Railroad.Proofs.Ebnf.Derivation
import Railroad.Proofs.Ebnf.Mistakes

namespace Railroad.Ebnf.Descent

/-! ## 1. Parsers and how they are put together -/

/-- What was being read when a parser failed. -/
inductive Context where
  | expected (what : Expectation)
  | unterminated (code : Code)
deriving DecidableEq

/-- **The reply of a parser,** each with what is left of the text. -/
inductive Reply (α : Type) where
  | done (value : α) (rest : List Char)
  | back (rest : List Char) (contexts : List Context)
  | cut (rest : List Char) (contexts : List Context)

/-- **A parser.** -/
def Step (α : Type) : Type := List Char → Reply α

/-- Goes on where a parser is done. -/
def Reply.andThen {α β : Type} : Reply α → (α → Step β) → Reply β
  | .done a rest, f => f a rest
  | .back rest contexts, _ => .back rest contexts
  | .cut rest contexts, _ => .cut rest contexts

namespace Step

variable {α β : Type}

instance : Monad Step where
  pure a := fun s => .done a s
  bind p f := fun s => (p s).andThen f

/-- The first alternative, or else the second from the same place on. -/
def alt (p q : Step α) : Step α := fun s =>
  match p s with
  | .back _ _ => q s
  | reply => reply

/-- What this parser refuses is wrong, and nothing else is tried. -/
def committed (p : Step α) : Step α := fun s =>
  match p s with
  | .back rest contexts => .cut rest contexts
  | reply => reply

/-- Notes on a failure what was being read. -/
def within (context : Context) (p : Step α) : Step α := fun s =>
  match p s with
  | .done a rest => .done a rest
  | .back rest contexts => .back rest (contexts ++ [context])
  | .cut rest contexts => .cut rest (contexts ++ [context])

/-- The parser, or nothing. -/
def opt (p : Step α) : Step (Option α) := fun s =>
  match p s with
  | .done a rest => .done (some a) rest
  | .back _ _ => .done none s
  | .cut rest contexts => .cut rest contexts

/-- **The parser as often as it can.**  One that takes nothing would go on for ever, and is cut. -/
def many (p : Step α) : Step (List α) := fun s =>
  match p s with
  | .done a rest =>
    if rest.length < s.length then (many p rest).andThen fun others => pure (a :: others)
    else .cut rest []
  | .back _ _ => .done [] s
  | .cut rest contexts => .cut rest contexts
termination_by s => s.length

/-- The parser at least once, with a separator between two times. -/
def separated (p : Step α) (separator : Step β) : Step (List α) := do
  let first ← p
  let others ← many (do
    let _ ← separator
    p)
  return first :: others

/-- Exactly these characters. -/
def tag (w : List Char) : Step Unit := fun s =>
  if w.isPrefixOf s then .done () (s.drop w.length) else .back s []

/-- Exactly this character. -/
def char (c : Char) : Step Unit := tag [c]

/-- One character of a kind. -/
def oneOf (p : Char → Bool) : Step Char := fun s =>
  match s with
  | [] => .back [] []
  | c :: rest => if p c then .done c rest else .back s []

/-- The characters of a kind. -/
def takeWhile (p : Char → Bool) : Step (List Char) := fun s =>
  .done (s.takeWhile p) (s.dropWhile p)

/-- The characters of a kind, of which there must be one. -/
def takeWhile1 (p : Char → Bool) : Step (List Char) := fun s =>
  match s.takeWhile p with
  | [] => .back s []
  | taken => .done taken (s.dropWhile p)

end Step

open Step

/-! ## 2. The notation -/

/-- What ends a block comment, and everything before it. -/
def untilBlockEnd : Step Unit := fun s =>
  match afterBlock? s with
  | some rest => .done () rest
  | none => .back s []

/-- `(* .. *)` -/
def blockComment : Step Unit := do
  tag ['(', '*']
  within (.unterminated .unterminatedComment) (committed untilBlockEnd)

/-- `// ..`, up to the end of the line -/
def lineComment : Step Unit := do
  tag ['/', '/']
  let _ ← takeWhile isInLine

/-- Blanks and comments. -/
def ws : Step Unit := do
  let _ ← many (alt (do let _ ← takeWhile1 Text.isBlank) (alt blockComment lineComment))

/-- `"`, `..`, `"` on one line, with this quote -/
def quoted (quote : Char) : Step String := do
  char quote
  within (.unterminated .unterminatedLiteral) (committed do
    let text ← takeWhile (isInside quote)
    char quote
    return String.ofList text)

/-- A text in quotes; without any text it is the empty word. -/
def literal : Step Expr := do
  let text ← alt (quoted '"') (quoted '\'')
  return if text.isEmpty then .empty else .literal ⟨text, {}⟩

/-- `<`, `..`, `>` on one line, with something in it -/
def angled : Step String := do
  char '<'
  within (.unterminated .unterminatedName) (committed do
    let text ← takeWhile1 (isInside '>')
    char '>'
    return String.ofList text)

/-- A name without brackets. -/
def plain : Step String := do
  let first ← oneOf isNameStart
  let others ← takeWhile isNamePart
  return String.ofList (first :: others)

/-- A name, which may stand in angle brackets. -/
def name : Step String := alt angled plain

/-- A name as a factor. -/
def identifier : Step Expr := do
  let text ← name
  return .identifier ⟨text, {}⟩

/-- Something that must come next, behind the blanks. -/
def demand (what : Expectation) (p : Step Unit) : Step Unit :=
  within (.expected what) (committed do
    ws
    p)

/-- The end of a bracket. -/
def closing (bracket : Bracket) : Step Unit := demand (.closing bracket) (char bracket.right)

/-- What stands between two brackets. -/
def delimited (bracket : Bracket) (p : Step Expr) : Step Expr := do
  char bracket.left
  let e ← p
  closing bracket
  return e

section

variable (factor : Step Expr)

/-- `term = { factor }` -/
def term : Step Expr := do
  let factors ← many factor
  return termOf factors

/-- `expression = term { "|" term }` -/
def expression : Step Expr := do
  let terms ← separated (term factor) (do
    ws
    char '|')
  return .join .alternation terms

/-- `"(" expression ")"` -/
def group : Step Expr := delimited .round (expression factor)

/-- `"[" expression "]"` -/
def option : Step Expr := do
  let e ← delimited .square (expression factor)
  return .optional e

/-- `"{" expression "}" [ "+" ]` -/
def repetition : Step Expr := do
  let e ← delimited .curly (expression factor)
  let plus ← opt (do
    ws
    char '+')
  return if plus.isSome then .oneOrMore e else .repetition e

/-- A factor behind the blanks, if this reads the factors in its brackets. -/
def atom : Step Expr :=
  alt literal (alt identifier (alt (group factor) (alt (option factor) (repetition factor))))

end

/-- **A factor,** with as many open brackets inside each other. -/
def factor : Nat → Step Expr
  | 0 => fun s => .cut s []
  | depth + 1 => do
    ws
    atom (factor depth)

/-- `production = name ( "=" | "::=" ) expression ( "." | ";" )` -/
def production (factor : Step Expr) : Step Production := do
  ws
  let name ← name
  demand .definition (alt (tag [':', ':', '=']) (tag ['=']))
  let e ← expression factor
  demand .terminator (alt (char '.') (char ';'))
  return ⟨name, e⟩

/-- The end of the text. -/
def eof : Step Unit := fun s =>
  match s with
  | [] => .done () []
  | _ => .back s []

/-- **A whole grammar.** -/
def grammar (factor : Step Expr) : Step (List Production) := do
  let productions ← many (production factor)
  ws
  within (.expected .production) eof
  return productions

/-- **A failure as a diagnostic,** from what is left of the text and what was being read. -/
def toDiagnostic (source rest : List Char) (contexts : List Context) : Diagnostic :=
  let start := byteLength source - byteLength rest
  let span := Span.ofRange start (start + (rest.head?.map Char.utf8Size).getD 0)
  let expected := contexts.filterMap fun
    | .expected what => some what.text
    | .unterminated _ => none
  let open? := contexts.findSome? fun
    | .expected _ => none
    | .unterminated code => some code
  let help := if expected.isEmpty then none else some ("expected " ++ " or ".intercalate expected)
  match open?, rest with
  | some code, _ =>
    { message := code.description, code := some code
      labels := [⟨span, "missing closing delimiter", true⟩], help }
  | none, c :: _ =>
    { message := "unexpected character `" ++ Text.escapeAscii c ++ "`"
      code := some .unexpectedCharacter, labels := [⟨span, "not expected here", true⟩], help }
  | none, [] =>
    { message := "unexpected end of input", code := some .incompleteInput
      labels := [⟨span, "input ends here", true⟩], help }

/-- **Reads a grammar.** -/
def parse (text : String) : Except ParseError (List Production) :=
  match grammar (factor (text.toList.length + 1)) text.toList with
  | .done productions _ => .ok productions
  | .back rest contexts | .cut rest contexts =>
    .error ⟨[toDiagnostic text.toList rest contexts]⟩

end Railroad.Ebnf.Descent
