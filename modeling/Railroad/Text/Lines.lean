/-
# Lines of a text

A line feed ends a line, and a carriage return right before it belongs to the end as well.  The
last line needs no end, and after a final line feed there is no further line.

Labels are measured and drawn line by line.  A label can have several lines only when its expression
was built by hand: a literal or a name in a grammar text stays on one line.
-/

namespace Railroad.Text

/-- A line without the carriage return it ends with.  Only one is dropped, and none inside the
line. -/
def dropReturn (line : List Char) : List Char :=
  if line.getLast? == some '\r' then line.dropLast else line

/-- The lines of what follows `line`, which is the begun line, last character first. -/
def linesFrom (line : List Char) : List Char → List (List Char)
  | [] => if line.isEmpty then [] else [line.reverse]
  | '\n' :: rest => dropReturn line.reverse :: linesFrom [] rest
  | c :: rest => linesFrom (c :: line) rest

/-- **The lines of a text.**  The empty text has none, and a line feed alone has one, which is
empty. -/
def lines (s : String) : List (List Char) := linesFrom [] s.toList

end Railroad.Text
