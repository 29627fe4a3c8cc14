/-
# TOML texts

A text stands in quotes.  Double quotes make a basic text, which knows escapes behind a backslash;
single quotes make a literal one, which is taken as it is.  One quote on either side keeps a text
to its line, three let it go over several.

A text is read in two steps: `quoted` and `longQuoted` find where it ends, and `unescape` or
`plain?` makes of what stands between the quotes what it says.  The first step only has to know
that a backslash takes the next character with it; which escapes there are is known to the second.
-/
import Railroad.Number.Reader

namespace Railroad.Toml

/-! ## 1. Characters -/

/-- Blank within a line. -/
def isBlank (c : Char) : Bool := c == ' ' || c == '\t'

/-- It may stand for itself in a text or in a comment: any character but control characters, and of
these the tab. -/
def isText (c : Char) : Bool := c == '\t' || (' ' ≤ c && c != '\x7f')

/-- The character that a single letter behind a backslash stands for. -/
def escaped? : Char → Option Char
  | 'b' => some '\x08'
  | 't' => some '\t'
  | 'n' => some '\n'
  | 'f' => some '\x0c'
  | 'r' => some '\r'
  | 'e' => some '\x1b'
  | '"' => some '"'
  | '\\' => some '\\'
  | _ => none

/-- The character of a number in hexadecimal digits. -/
def numbered? (digits : List Char) : Option Char := do
  let n ← Number.ofDigits? 16 digits
  if n.isValidChar then some (Char.ofNat n) else none

/-! ## 2. Where a text ends -/

/-- What stands before the closing quote, and what behind it.  If there are `escapes`, a quote
behind a backslash closes nothing. -/
def quoted (quote : Char) (escapes : Bool) : List Char → Option (List Char × List Char)
  | [] => none
  | '\\' :: c :: s =>
    if escapes then (quoted quote escapes s).map fun (text, rest) => ('\\' :: c :: text, rest)
    else (quoted quote escapes (c :: s)).map fun (text, rest) => ('\\' :: text, rest)
  | c :: s =>
    if c == quote then some ([], s)
    else (quoted quote escapes s).map fun (text, rest) => (c :: text, rest)

/-- What stands before three closing quotes, and what behind them.  Up to two more quotes may come
with the three and belong to the text. -/
def longQuoted (quote : Char) (escapes : Bool) : List Char → Option (List Char × List Char)
  | [] => none
  | '\\' :: c :: s =>
    if escapes then (longQuoted quote escapes s).map fun (text, rest) => ('\\' :: c :: text, rest)
    else (longQuoted quote escapes (c :: s)).map fun (text, rest) => ('\\' :: text, rest)
  | c :: s =>
    if c == quote && s.take 2 == [quote, quote] then
      let quotes := min 5 ((c :: s).takeWhile (· == quote)).length
      some (List.replicate (quotes - 3) quote, (c :: s).drop quotes)
    else (longQuoted quote escapes s).map fun (text, rest) => (c :: text, rest)

/-! ## 3. What a text says -/

/-- A text that is taken as it is; a `long` one may hold ends of lines. -/
def plain? (long : Bool) : List Char → Option (List Char)
  | [] => some []
  | '\r' :: '\n' :: s => if long then (plain? long s).map fun s => '\r' :: '\n' :: s else none
  | c :: s => if isText c || long && c == '\n' then (plain? long s).map (c :: ·) else none

/-- Only blanks come before the end of the line. -/
def endsLine (s : List Char) : Bool :=
  match s.dropWhile isBlank with
  | '\n' :: _ => true
  | '\r' :: '\n' :: _ => true
  | _ => false

/-- A character in front of what is said, if both are there. -/
def prepend (c? : Option Char) (s? : Option (List Char)) : Option (List Char) := do
  return (← c?) :: (← s?)

/-- **A text with its escapes resolved.**  In a `long` one a backslash at the end of a line swallows
all blanks and ends of lines that follow; `swallowing` says that this is going on. -/
def unescape (long : Bool) (swallowing : Bool) : List Char → Option (List Char)
  | [] => some []
  | '\\' :: 'x' :: a :: b :: s => prepend (numbered? [a, b]) (unescape long false s)
  | '\\' :: 'u' :: a :: b :: c :: d :: s => prepend (numbered? [a, b, c, d]) (unescape long false s)
  | '\\' :: 'U' :: a :: b :: c :: d :: e :: f :: g :: h :: s =>
    prepend (numbered? [a, b, c, d, e, f, g, h]) (unescape long false s)
  | '\\' :: c :: s =>
    if long && endsLine (c :: s) then unescape long true (c :: s)
    else prepend (escaped? c) (unescape long false s)
  | '\r' :: '\n' :: s =>
    if swallowing then unescape long true s
    else if long then prepend (some '\r') (prepend (some '\n') (unescape long false s))
    else none
  | c :: s =>
    if swallowing && (isBlank c || c == '\n') then unescape long true s
    else if isText c || long && c == '\n' then prepend (some c) (unescape long false s)
    else none

/-! ## 4. Texts -/

/-- A text without the end of the line it begins with, if it does. -/
def dropLineEnd : List Char → List Char
  | '\n' :: s => s
  | '\r' :: '\n' :: s => s
  | s => s

/-- A text of one line; `s` begins behind its opening quote. -/
def shortText (quote : Char) (s : List Char) : Option (String × List Char) := do
  let escapes := quote == '"'
  let (text, rest) ← quoted quote escapes s
  return (String.ofList (← if escapes then unescape false false text else plain? false text), rest)

/-- A text of several lines; `s` begins behind its opening quotes. -/
def longText (quote : Char) (s : List Char) : Option (String × List Char) := do
  let escapes := quote == '"'
  let (text, rest) ← longQuoted quote escapes (dropLineEnd s)
  return (String.ofList (← if escapes then unescape true false text else plain? true text), rest)

end Railroad.Toml
