/-
# Text in double quotes

A terminal is shown as its text between double quotes.  `quote` writes it so that it can be
read on one line whatever it holds: the quote and the backslash are escaped, so are the
controls that have a short escape, and a character that would not show becomes its code point
in hexadecimal.

`escapeAscii` is the stricter form used in messages about single characters: all that is not
printable ASCII becomes a code point, and the single quote is escaped too.

Quoted text is for people.  It is no notation of grammars, in which a literal cannot hold its own
quote in any form, and nothing reads it back.
-/
import Railroad.Text.Character

namespace Railroad.Text

/-- A code point between braces, in lower-case hexadecimal. -/
def codePoint (c : Char) : String :=
  "\\u\x7b" ++ String.ofList (Nat.toDigits 16 c.toNat) ++ "\x7d"

/-- A character inside double quotes: as itself, by a short escape, or by its code point. -/
def quoteChar (c : Char) : String :=
  if c == '\x00' then "\\0"
  else if c == '\t' then "\\t"
  else if c == '\r' then "\\r"
  else if c == '\n' then "\\n"
  else if c == '"' then "\\\""
  else if c == '\\' then "\\\\"
  else if isShown c then c.toString
  else codePoint c

/-- **A text between double quotes,** which takes one line whatever the text is.  Characters that
would end the text or begin an escape are escaped, and so are those that cannot be seen. -/
def quote (s : String) : String :=
  "\"" ++ String.join (s.toList.map quoteChar) ++ "\""

/-- A character as a message about it shows it: what is not printed ASCII is escaped. -/
def escapeAscii (c : Char) : String :=
  if c == '\t' then "\\t"
  else if c == '\r' then "\\r"
  else if c == '\n' then "\\n"
  else if c == '\'' then "\\'"
  else if c == '"' then "\\\""
  else if c == '\\' then "\\\\"
  else if ' ' ≤ c && c ≤ '~' then c.toString
  else codePoint c

end Railroad.Text
