/-
# The notation of colors

Settings give colors as text, and a drawing writes them as text again.  The notation of the text is
that of style sheets, with names, hexadecimal digits and functions; it is fixed outside, and a
library of its own reads and writes it.

`Color.Notation` is what is asked of that library: reading a color, or saying why a text is none,
and the text of a color.  Nothing is known of either but that the two names are read which a chart
falls back on.  Everything that is drawn is drawn over an arbitrary notation, so no result on
drawings rests on how a color is read or written.

What is done here with a notation is little: `Color.ofText` is `new`, which keeps a text that is
refused for the message, and `Color.black` is the `default`, which stands where none is set.
The notation of style sheets itself is in `Railroad.Color.Reader`.
-/
import Railroad.Color.Basic

namespace Railroad.Color

/-- **A notation of colors.**  A chart that sets no colors is drawn in black on white, and that
these two can be read is all that is relied on. -/
class Notation where
  /-- Reads a color, or says why the text is none. -/
  read : String → Except String Color
  /-- The text of a color. -/
  text : Color → String
  /-- Black has its name. -/
  reads_black : (read "black").toOption.isSome
  /-- White has its name. -/
  reads_white : (read "white").toOption.isSome

/-- A text that is no color, and why. -/
structure Unreadable where
  text : String
  reason : String
deriving Repr, DecidableEq

/-- The wording of a text that is no color. -/
def Unreadable.message (u : Unreadable) : String :=
  "invalid color `" ++ u.text ++ "`: " ++ u.reason

section

variable [Notation]

/-- Reads a color, keeping the text that is none for the message. -/
def ofText (s : String) : Except Unreadable Color :=
  (Notation.read s).mapError (Unreadable.mk s)

/-- Black, the color that is used where none is set. -/
def black : Color := (Notation.read "black").toOption.get Notation.reads_black

/-- White. -/
def white : Color := (Notation.read "white").toOption.get Notation.reads_white

/-- The color of a name, or black if the name is none. -/
def ofName (name : String) : Color := (Notation.read name).toOption.getD black

end

end Railroad.Color
