/-
# Names for files

Every diagram of a run goes into a file of its own.  A file is named after its production, but file
names are shorter than names may be, hold fewer characters, and must differ from each other.

A name is first made safe (`sanitize`) and cut to the limit.  If that was handed out before, a
number is put behind it, counted from zero, and as much of the name is cut off as the number needs;
the first such name that is free is taken.  The number itself is never cut.  A limit that leaves no
room for it is therefore passed, but only when there are more equal names than the limit has numbers
for (`Railroad.Proofs.Command.Stems`).

Names are compared letter by letter, small and capital letters apart.  On a disk that does not tell
these apart two different names can still be one file.
-/

namespace Railroad

/-- **Hands out file names.**  `used` are those that were handed out, the last one first.  They are
kept as they were handed out, with their numbers.  The limit counts characters, which are letters
and digits and two signs once a name is made safe, each of one byte. -/
structure FileNamer where
  limit : Nat := 64
  used : List String := []

namespace FileNamer

/-- The longest name that is handed out when there is a choice. -/
def ofLimit (limit : Nat) : FileNamer := { limit := max limit 1 }

/-- It may stand in a file name. -/
def isSafe (c : Char) : Bool := c.isAlphanum || c == '-' || c == '_'

/-- A name with all other characters replaced, `sanitize`.  There is always something left: an empty
name becomes a word. -/
def sanitize (name : String) : List Char :=
  if name.isEmpty then "diagram".toList
  else name.toList.map fun c => if isSafe c then c else '_'

/-- A number behind as much of a name as there is room for. -/
def numbered (limit : Nat) (base : List Char) (n : Nat) : String :=
  let digits := (Nat.repr n).toList
  String.ofList (base.take (limit - digits.length) ++ digits)

/-- The first candidate from the `n`th on that was not handed out yet.  Candidates with equally
many digits differ, so some number of at most one digit more than there are names must be
free; `fuel` reaches beyond those. -/
def firstFree (used : List String) (candidate : Nat → String) : Nat → Nat → String
  | 0, n => candidate n
  | fuel + 1, n =>
    if used.contains (candidate n) then firstFree used candidate fuel (n + 1) else candidate n

/-- **A file name that was not handed out before,** `stem`: the name itself if that is possible, or
else with a number.  The search is given a hundred turns for each name in use, which is more than it
can need (`FileNamer.choose_not_mem`). -/
def choose (namer : FileNamer) (name : String) : String :=
  let base := (sanitize name).take namer.limit
  if namer.used.contains (String.ofList base) then
    firstFree namer.used (numbered namer.limit base) (100 * namer.used.length) 0
  else String.ofList base

/-- **Hands out a file name** for a name, and remembers it. -/
def next (namer : FileNamer) (name : String) : String × FileNamer :=
  let stem := namer.choose name
  (stem, { namer with used := stem :: namer.used })

end FileNamer

end Railroad
