/-
# Data without a scheme

Settings arrive as a tree of tables, texts and numbers, whatever notation they were written in.
`Data` is that tree, and `Data.Reader` what reads a value off it, or finds that it has the wrong
type.

What a text stands for as data is decided outside, by the notation that it is written in
(`Data.Notation`).  Nothing here reads a text, and what is proved about settings from a file holds
for every notation.

Notations differ a little in what they allow in the place of a table or of a choice.  `Dialect`
names the differences, so that one reader serves all of them.  Two things are common to all: entries
that nobody asks for are passed over, but must be data that could have been asked for (`isSound`),
and a table may be written as the list of its entries.
-/
import Railroad.Number.Binary

namespace Railroad

/-- **Data without a scheme.**  A table keeps its entries in the order of the text, and looking up a
name takes the first one.  It is what files of settings are read into before anything is known about
settings. -/
inductive Data where
  | null
  | bool (value : Bool)
  | int (value : Int)
  | float (value : Float)
  /-- A number that was written down but is too large for any type of number. -/
  | overflow
  | text (value : String)
  /-- A day, a time of day, or both. -/
  | date
  | list (items : List Data)
  | table (entries : List (String × Data))
deriving Inhabited

/-- **A notation of data:** what a text stands for, if it stands for anything. -/
class Data.Notation where
  read? : String → Option Data

namespace Data

/-! ## 1. Numbers, texts and truth values -/

/-- A reader of one type of data.  That there is no value means that the data has the wrong type;
why is not said. -/
abbrev Reader (β : Type) := Data → Option β

def bool? : Reader Bool
  | .bool value => some value
  | _ => none

def text? : Reader String
  | .text value => some value
  | _ => none

/-- A whole number fits into 64 bits, with a sign or without one. -/
def isWord (value : Int) : Bool := -(Number.twoTo 63 : Int) ≤ value && value < Number.twoTo 64

/-- A number, whole or not.  It is carried over to 32 bits, rounded, and may become infinite on
the way. -/
def number? : Reader Float32
  | .int value => if isWord value then some (Float32.ofInt value) else none
  | .float value => some (Number.narrow value)
  | _ => none

/-- A whole number of sixteen bits, the size of a font.  One that does not fit is refused, not
cut off. -/
def size? : Reader UInt16
  | .int value => if 0 ≤ value && value < 65536 then some (UInt16.ofNat value.toNat) else none
  | _ => none

/-- Nothing, or something.  An entry that is there and is nothing counts as given, which matters
where the default is something. -/
def optional? {β : Type} (reader : Reader β) : Reader (Option β)
  | .null => some none
  | data => (reader data).map some

/-! ## 2. Tables and choices -/

mutual

/-- No number in it is too large.  Data that nobody asks for must be sound all the same. -/
def isSound : Data → Bool
  | .overflow => false
  | .list items => areSound items
  | .table entries => entriesAreSound entries
  | _ => true

/-- All items are sound. -/
def areSound : List Data → Bool
  | [] => true
  | data :: items => data.isSound && areSound items

/-- The data of all entries is sound. -/
def entriesAreSound : List (String × Data) → Bool
  | [] => true
  | (_, data) :: entries => data.isSound && entriesAreSound entries

end

/-- **What a notation allows:** whether a list may go on behind the entries it stands for, and what
is nothing beside the name of a choice. -/
structure Dialect where
  longLists : Bool
  isNothing : Data → Bool

/-- In JSON a list is no longer than the table it stands for, and `null` is nothing. -/
def Dialect.json : Dialect where
  longLists := false
  isNothing
    | .null => true
    | _ => false

/-- In TOML a list may go on, and is not looked at any further; an empty list or table is nothing. -/
def Dialect.toml : Dialect where
  longLists := true
  isNothing
    | .list [] | .table [] => true
    | _ => false

/-- **The entries of a table** that knows some names.  Entries under other names are passed over.  A
list gives entries to the names in order; a date gives none.  Those that are passed over must still
be sound. -/
def entries? (dialect : Dialect) (names : List String) : Reader (List (String × Data))
  | .table entries =>
    if entriesAreSound (entries.filter fun entry => !names.contains entry.1) then some entries else none
  | .list items =>
    if dialect.longLists || items.length ≤ names.length then some (names.zip items) else none
  | .date => some []
  | _ => none

/-- The entry of a name, or the default if there is none.  An entry of the wrong type is no
reason to fall back on the default. -/
def entry? {β : Type} (entries : List (String × Data)) (name : String) (reader : Reader β)
    (default : β) : Option β :=
  match entries.lookup name with
  | none => some default
  | some data => reader data

/-- **The name of a choice:** a text, or a table whose only entry has nothing beside that name. -/
def choice? (dialect : Dialect) : Reader String
  | .text name => some name
  | .table [(name, data)] => if dialect.isNothing data then some name else none
  | _ => none

end Data

end Railroad
