/-
# XML

A drawing is written as a tree of elements.  An element has its attributes in the order of their
names, and its children on lines of their own.

What is said of drawings is said of trees, with whatever notation they are written down
(`Xml.Notation`).  Nothing is asked of a notation: two trees may have the same text, and results
about files name the tree whose text a file holds.  `Xml.render` is the notation that is used
(`Railroad.Standard`).
-/

namespace Railroad

/-- **A piece of XML:** an element, or text.  Attributes are in the order in which they were given;
a notation may write them in another one. -/
inductive Xml where
  | element (name : String) (attributes : List (String × String)) (children : List Xml)
  | text (content : String)
deriving Inhabited

/-- **A notation of XML:** what is written for a piece of it. -/
class Xml.Notation where
  write : Xml → String

namespace Xml

/-- A character inside text.  Only what could be taken for markup is escaped. -/
def escapeInText (c : Char) : String :=
  if c == '&' then "&amp;"
  else if c == '<' then "&lt;"
  else if c == '>' then "&gt;"
  else c.toString

/-- A character inside an attribute. -/
def escapeInAttribute (c : Char) : String :=
  if c == '"' then "&quot;"
  else if c == '\'' then "&apos;"
  else escapeInText c

/-- An attribute with the space before it. -/
def attributeText (a : String × String) : String :=
  " " ++ a.1 ++ "=\"" ++ String.join (a.2.toList.map escapeInAttribute) ++ "\""

/-- The attributes in the order of their names. -/
def sortAttributes (attributes : List (String × String)) : List (String × String) :=
  attributes.mergeSort fun a b => !decide (b.1 < a.1)

mutual

/-- **XML as text.**  An element without children is closed in its own tag. -/
def render : Xml → String
  | .text content => String.join (content.toList.map escapeInText)
  | .element name attributes children =>
    let opening := "<" ++ name ++ String.join ((sortAttributes attributes).map attributeText)
    match children with
    | [] => opening ++ "/>"
    | first :: rest => opening ++ ">" ++ renderAll (first :: rest) ++ "\n</" ++ name ++ ">"

/-- Pieces of XML, each on a line of its own. -/
def renderAll : List Xml → String
  | [] => ""
  | xml :: rest => "\n" ++ render xml ++ renderAll rest

end

end Xml

end Railroad
