/-
# Reading TOML

A document is read line by line: a header, a statement, a comment or nothing.  Lists and tables in
braces may go over several lines and hold comments; all else ends with its line, but for texts in
three quotes.

Everything that is read is taken from the front of what is left; that bounds the `fuel`.  Lists
and tables in braces stand in each other only so deep; `room` says how many more may be opened.

This is the reader that settings are read with when the program runs (`Railroad.Standard`).  Nothing
is proved of it: whatever is said of settings from a file is said of any reader (`Data.Notation`),
for what a file says is what its reader makes of it.
-/
import Railroad.Toml.Scalar
import Railroad.Toml.Table
import Railroad.Toml.Text

namespace Railroad.Toml

/-! ## 1. Between values -/

/-- Drops blanks. -/
def skipBlanks (s : List Char) : List Char := s.dropWhile isBlank

/-- Drops a comment, if one comes next, up to the end of its line. -/
def skipComment : List Char → List Char
  | '#' :: s => s.dropWhile isText
  | s => s

/-- What follows the end of the line, if nothing but a comment comes before it. -/
def lineEnd (s : List Char) : Option (List Char) :=
  match skipComment (skipBlanks s) with
  | [] => some []
  | '\n' :: s => some s
  | '\r' :: '\n' :: s => some s
  | _ => none

/-- Drops blanks, comments and ends of lines.  `inComment` says that a comment has begun. -/
def skipGap (inComment : Bool) : List Char → List Char
  | [] => []
  | '\n' :: s => skipGap false s
  | '\r' :: '\n' :: s => skipGap false s
  | c :: s =>
    if inComment && isText c || isBlank c then skipGap inComment s
    else if c == '#' then skipGap true s
    else c :: s

/-! ## 2. Keys -/

/-- How deep lists and tables may stand in each other by a single key or value. -/
def deepest : Nat := 80

/-- A letter of a key without quotes. -/
def isKeyChar (c : Char) : Bool := c.isAlphanum || c == '-' || c == '_'

/-- One key: in quotes, or a word. -/
def simpleKey : List Char → Option (String × List Char)
  | '"' :: s => shortText '"' s
  | '\'' :: s => shortText '\'' s
  | s =>
    match s.takeWhile isKeyChar with
    | [] => none
    | word => some (String.ofList word, s.dropWhile isKeyChar)

/-- The parts of a key with dots between them, and the blanks behind it. -/
def keyParts : Nat → List Char → Option (List String × List Char)
  | 0, _ => none
  | fuel + 1, s => do
    let (first, s) ← simpleKey (skipBlanks s)
    match skipBlanks s with
    | '.' :: s =>
      let (rest, s) ← keyParts fuel s
      return (first :: rest, s)
    | s => return ([first], s)

/-- **A key,** which may be dotted, with the blanks behind it.  It has no more parts than tables may
be deep. -/
def key (fuel : Nat) (s : List Char) : Option (List String × List Char) := do
  let (path, s) ← keyParts fuel s
  if deepest < path.length then none else return (path, s)

/-! ## 3. Values -/

/-- A letter of a truth value, a number or a date. -/
def isWordChar (c : Char) : Bool := isKeyChar c || c == '+' || c == '.' || c == ':'

/-- A word and what follows it.  A blank between a day and a time is part of the word. -/
def splitWord (s : List Char) : List Char × List Char :=
  let word := s.takeWhile isWordChar
  match s.dropWhile isWordChar with
  | ' ' :: c :: rest =>
    if c.isDigit && Date.day? word == some [] then
      (word ++ ' ' :: (c :: rest).takeWhile isWordChar, (c :: rest).dropWhile isWordChar)
    else (word, ' ' :: c :: rest)
  | rest => (word, rest)

mutual

/-- **A value.** -/
def value : Nat → Nat → List Char → Option (Data × List Char)
  | 0, _, _ => none
  | fuel + 1, room, s =>
    let text (t : String × List Char) : Data × List Char := (.text t.1, t.2)
    match s with
    | '"' :: '"' :: '"' :: s => (longText '"' s).map text
    | '\'' :: '\'' :: '\'' :: s => (longText '\'' s).map text
    | '"' :: s => (shortText '"' s).map text
    | '\'' :: s => (shortText '\'' s).map text
    | '[' :: s =>
      if room == 0 then none
      else (items fuel (room - 1) s).map fun (items, s) => (.list items, s)
    | '\x7b' :: s =>
      if room == 0 then none
      else (fields fuel (room - 1) [] s).map fun (entries, s) => (.table (entriesToData entries), s)
    | s => (scalar? (splitWord s).1).map fun data => (data, (splitWord s).2)

/-- The items of a list up to its closing bracket. -/
def items : Nat → Nat → List Char → Option (List Data × List Char)
  | 0, _, _ => none
  | fuel + 1, room, s =>
    match skipGap false s with
    | ']' :: s => some ([], s)
    | s => do
      let (item, s) ← value fuel room s
      match skipGap false s with
      | ',' :: s =>
        let (rest, s) ← items fuel room s
        return (item :: rest, s)
      | ']' :: s => return ([item], s)
      | _ => none

/-- The fields of a table up to its closing brace, added to those before them. -/
def fields : Nat → Nat → Entries → List Char → Option (Entries × List Char)
  | 0, _, _, _ => none
  | fuel + 1, room, entries, s =>
    match skipGap false s with
    | '\x7d' :: s => some (entries, s)
    | s => do
      let (path, s) ← key fuel s
      let '=' :: s := skipGap false s | none
      let (data, s) ← value fuel room (skipGap false s)
      let entries ← assign path data entries
      match skipGap false s with
      | ',' :: s => fields fuel room entries s
      | '\x7d' :: s => return (entries, s)
      | _ => none

end

/-! ## 4. Documents -/

/-- A line that is not empty. -/
inductive Statement where
  | header (path : List String)
  | listed (path : List String)
  | assignment (path : List String) (data : Data)

/-- What stands at the beginning of what is left, up to the end of its last line. -/
def statement (fuel : Nat) (s : List Char) : Option (Statement × List Char) := do
  match s with
  | '[' :: '[' :: s =>
    let (path, s) ← key fuel s
    let ']' :: ']' :: s := s | none
    return (.listed path, ← lineEnd s)
  | '[' :: s =>
    let (path, s) ← key fuel s
    let ']' :: s := s | none
    return (.header path, ← lineEnd s)
  | s =>
    let (path, s) ← key fuel s
    let '=' :: s := s | none
    let (data, s) ← value fuel deepest (skipBlanks s)
    return (.assignment path data, ← lineEnd s)

/-- **The statements of a document.** -/
def statements : Nat → List Char → Option (List Statement)
  | 0, _ => none
  | fuel + 1, s =>
    match skipGap false s with
    | [] => some []
    | s => do
      let (first, s) ← statement fuel s
      return first :: (← statements fuel s)

/-- The table that statements make of one; `path` leads to the table that is open. -/
def build : List Statement → List String → Entries → Option Entries
  | [], _, entries => some entries
  | .header path :: rest, _, entries => do build rest path (← openTable path entries)
  | .listed path :: rest, _, entries => do build rest path (← openListed path entries)
  | .assignment path data :: rest, current, entries => do
    build rest current (← within current (assign path data) entries)

/-- **Reads a document:** its table, or nothing if anything in it is wrong.  A mark of the byte
order in front is passed over.  The bound on how long reading goes on is taken from the length of
the text. -/
def read? (text : String) : Option Data := do
  let s := match text.toList with
    | '\ufeff' :: s => s
    | s => s
  let entries ← build (← statements (s.length + 2) s) [] []
  return .table (entriesToData entries)

end Railroad.Toml
