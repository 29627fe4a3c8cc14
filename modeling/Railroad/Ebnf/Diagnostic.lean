/-
# Diagnostics

What is wrong with a grammar text: a message, perhaps a code, the places it is about and
perhaps a hint.  A failed parse carries one or more of them.

The reader of the notation gives exactly one, with a code and one label: it stops at the first
mistake (`Railroad.Proofs.Ebnf.Location`).  The types leave room for more, since diagnostics are
shown by a part of the program that does not know the reader (`Railroad.Command.Report`).
-/
import Railroad.Ebnf.Span

namespace Railroad.Ebnf

/-- **The kinds of mistakes in a grammar text.**  The first three are tokens that never end, the
last two a text that does not go on as it must.  Of the last two it is the second if no text is
left. -/
inductive Code where
  | unterminatedLiteral | unterminatedComment | unterminatedName
  | unexpectedCharacter | incompleteInput
deriving Repr, DecidableEq

namespace Code

/-- The code as it is shown. -/
def text : Code → String
  | .unterminatedLiteral => "E001"
  | .unterminatedComment => "E002"
  | .unterminatedName => "E003"
  | .unexpectedCharacter => "E100"
  | .incompleteInput => "E101"

/-- The codes in order. -/
def all : List Code :=
  [.unterminatedLiteral, .unterminatedComment, .unterminatedName, .unexpectedCharacter,
    .incompleteInput]

/-- The code that is shown as the given text, if there is one. -/
def ofText? (s : String) : Option Code := all.find? (·.text == s)

/-- What the code says in words. -/
def description : Code → String
  | .unterminatedLiteral => "unterminated string literal"
  | .unterminatedComment => "unterminated comment"
  | .unterminatedName => "unterminated angle-bracketed name"
  | .unexpectedCharacter => "unexpected character"
  | .incompleteInput => "incomplete input"

end Code

/-- A remark on a span.  The primary label is where the mistake is, others are context. -/
structure Label where
  span : Span
  message : String
  primary : Bool

/-- **One thing that is wrong.**  The message says what, the labels say where, and the help what
would have been right. -/
structure Diagnostic where
  message : String
  code : Option Code := none
  labels : List Label := []
  help : Option String := none

/-- The first line of a diagnostic. -/
def Diagnostic.text (d : Diagnostic) : String :=
  let code := match d.code with
    | some code => "[" ++ code.text ++ "]"
    | none => ""
  "error" ++ code ++ ": " ++ d.message

/-- Everything that is wrong with a text. -/
structure ParseError where
  diagnostics : List Diagnostic

/-- The first diagnostic, and how many there are besides it. -/
def ParseError.text : ParseError → String
  | ⟨[]⟩ => ""
  | ⟨[d]⟩ => d.text
  | ⟨d :: rest⟩ => d.text ++ " (+" ++ toString rest.length ++ " more)"

end Railroad.Ebnf
