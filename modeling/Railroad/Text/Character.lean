/-
# Classes of characters

What the notation and its printers ask about a character: whether it is a letter or a number,
whether it is blank, and whether it can stand for itself in quoted text.

Letters and numbers are those of any script, so the classes are looked up in tables of ranges
(`Railroad.Text.CharacterTable`).  Blanks are few and are not the same everywhere: the notation of
grammars knows four, while the white space around a color is all that Unicode calls so.

The proofs about the notation hardly use the tables.  They need that the signs of the notation are
no letters, which is decided for each sign.
-/
import Railroad.Text.CharacterTable

namespace Railroad.Text

/-- A letter, in any script. -/
def isAlphabetic (c : Char) : Bool := CharacterTable.contains CharacterTable.alphabetic c.toNat

/-- A digit or another number, in any script. -/
def isNumeric (c : Char) : Bool := CharacterTable.contains CharacterTable.numeric c.toNat

/-- A letter or a number. -/
def isAlphanumeric (c : Char) : Bool := isAlphabetic c || isNumeric c

/-- Blank in the notation: space, tab, carriage return and line feed, and no other. -/
def isBlank (c : Char) : Bool := c == ' ' || c == '\t' || c == '\r' || c == '\n'

/-- White space as Unicode has it; it is trimmed from the ends of a color. -/
def isWhiteSpace (c : Char) : Bool :=
  CharacterTable.contains
    [(0x9, 0xD), (0x20, 0x20), (0x85, 0x85), (0xA0, 0xA0), (0x1680, 0x1680), (0x2000, 0x200A),
     (0x2028, 0x2029), (0x202F, 0x202F), (0x205F, 0x205F), (0x3000, 0x3000)] c.toNat

/-- Shown as itself inside quotes: neither unprintable nor attached to the character before, with
which it would be taken for one. -/
def isShown (c : Char) : Bool :=
  !CharacterTable.contains CharacterTable.attached c.toNat &&
    !CharacterTable.contains CharacterTable.unprintable c.toNat

end Railroad.Text
