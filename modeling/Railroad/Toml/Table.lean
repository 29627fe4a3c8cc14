/-
# Tables under construction

A TOML document fills one table, statement by statement.  A header `[a.b]` opens the table `b` inside
`a`, a header `[[a.b]]` a further table in the list `b` inside `a`, and a statement `a.b = 1` gives a
value to `b` inside the table `a` of the table that is open.  Each makes the tables that are missing
on the way; on the way through a list it is the last table that counts.

Nothing is defined twice.  A table can be opened by one header only, a key gets one value only, and
a dotted key adds to no table that was opened by a header, and to no table of a list; but it may
lead through the last table of a list.  What a dotted key has added to cannot be opened by a header
any more.  To tell, every table is kept with its origin while the document is read.
-/
import Railroad.Data

namespace Railroad.Toml

/-- How a table came about. -/
inductive Origin where
  /-- By a header of its own. -/
  | header
  /-- On the way of a header to a table inside it. -/
  | passed
  /-- On the way of a dotted key. -/
  | dotted
deriving Repr, DecidableEq

/-- **What a key stands for** while a document is read.  Of a list of tables the last one can still
be changed.  Whether a key may be added to depends on how its table was begun. -/
inductive Item where
  | value (data : Data)
  | table (origin : Origin) (entries : List (String × Item))
  | tables (earlier : List Data) (last : List (String × Item))

/-- The entries of a table, in the order in which they were made. -/
abbrev Entries := List (String × Item)

/-! ## 1. Tables as data -/

mutual

/-- An item as data. -/
def Item.toData : Item → Data
  | .value data => data
  | .table _ entries => .table (entriesToData entries)
  | .tables earlier last => .list (earlier ++ [.table (entriesToData last)])

/-- The entries of a table as data. -/
def entriesToData : Entries → List (String × Data)
  | [] => []
  | (key, item) :: entries => (key, item.toData) :: entriesToData entries

end

/-! ## 2. Changes at the end of a path -/

/-- Changes what one key stands for, or adds the key at the end. -/
def alter (key : String) (f : Option Item → Option Item) : Entries → Option Entries
  | [] => do return [(key, ← f none)]
  | (other, item) :: entries =>
    if other == key then do return (other, ← f (some item)) :: entries
    else do return (other, item) :: (← alter key f entries)

/-- A way into a table that a key stands for, or is to stand for: its entries, and the item that
changed entries make. -/
abbrev Way := Option Item → Option (Entries × (Entries → Item))

/-- **Changes what the last key of a path stands for.**  The `nearest` way leads into the table that
this key is in, and `way` into those before it. -/
def update (way nearest : Way) (last : Option Item → Option Item) :
    List String → Entries → Option Entries
  | [], _ => none
  | [key], entries => alter key last entries
  | key :: path, entries =>
    let inside (item? : Option Item) : Option Item := do
      let (inner, outer) ← (if path.length == 1 then nearest else way) item?
      return outer (← update way nearest last path inner)
    alter key inside entries

/-- The way of a header. -/
def pass : Way
  | none => some ([], .table .passed)
  | some (.table origin entries) => some (entries, .table origin)
  | some (.tables earlier last) => some (last, .tables earlier)
  | some (.value _) => none

/-- The way of a dotted key to the table that it adds to. -/
def extend : Way
  | none => some ([], .table .dotted)
  | some (.table .passed entries) => some (entries, .table .dotted)
  | some (.table .dotted entries) => some (entries, .table .dotted)
  | some _ => none

/-- The way of a dotted key to a table on the way, which may be the last one of a list. -/
def reach : Way
  | some (.tables earlier last) => some (last, .tables earlier)
  | item? => extend item?

/-- The table that a header opens: a new one, or one that was only passed so far. -/
def headed : Option Item → Option Item
  | none => some (.table .header [])
  | some (.table .passed entries) => some (.table .header entries)
  | some _ => none

/-- The list that a header of double brackets adds a table to. -/
def listed : Option Item → Option Item
  | none => some (.tables [] [])
  | some (.tables earlier last) => some (.tables (earlier ++ [.table (entriesToData last)]) [])
  | some _ => none

/-! ## 3. Headers and statements -/

/-- Opens the table at the end of a path. -/
def openTable (path : List String) : Entries → Option Entries := update pass pass headed path

/-- Opens a further table in the list at the end of a path. -/
def openListed (path : List String) : Entries → Option Entries := update pass pass listed path

/-- Gives a value to a key, which may be dotted. -/
def assign (path : List String) (data : Data) : Entries → Option Entries :=
  let last : Option Item → Option Item
    | none => some (.value data)
    | some _ => none
  update reach extend last path

/-- Changes the table at the end of a path; the whole table, if the path is empty. -/
def within (path : List String) (f : Entries → Option Entries) (entries : Entries) : Option Entries :=
  let last (item? : Option Item) : Option Item := do
    let (inner, outer) ← pass item?
    return outer (← f inner)
  match path with
  | [] => f entries
  | path => update pass pass last path entries

end Railroad.Toml
