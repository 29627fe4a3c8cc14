/-
# The command line

    railroad [options] <input>

The input is a grammar file.  Options have a long name behind two dashes, most also a letter behind
one; the value of an option follows it, either as the next word or in the same one.  Behind `--`
no word is an option any more.

Words are taken one by one.  An option waits for its value, and is looked at only when the next
thing begins; so a word that no option or input can be is the first fault to be seen.

Only the productions to be drawn may be asked for more than once, and then all of them are
drawn in the order they are given; any other option given twice is refused.
-/

namespace Railroad

/-- **What a run is asked to do.**  Without symbols everything that is defined is drawn.  The level
of the log is kept as it was written and has no say in what is drawn. -/
structure Arguments where
  input : String
  output : String := "out"
  symbols : List String := []
  stacked : Bool := false
  config : Option String := none
  logLevel : String := "info"
deriving Repr, DecidableEq

namespace Arguments

/-- Why a command line is not followed. -/
inductive Refusal where
  | missingInput
  | unknownWord
  | missingValue
  | givenTwice
  | unwantedValue
  /-- The usage is asked for. -/
  | help
  /-- The version is asked for. -/
  | version
deriving Repr, DecidableEq

/-- The options that take a value. -/
inductive Setting where
  | output | symbol | config | logLevel
deriving Repr, DecidableEq

/-- The options that take none. -/
inductive Switch where
  | stacked | help | version
deriving Repr, DecidableEq

/-- An option. -/
inductive Choice where
  | setting (setting : Setting)
  | switch (switch : Switch)
deriving Repr, DecidableEq

/-- The option of a long name. -/
def Choice.ofName? : String → Option Choice
  | "output" => some (.setting .output)
  | "symbol" => some (.setting .symbol)
  | "config" => some (.setting .config)
  | "log-level" => some (.setting .logLevel)
  | "stacked" => some (.switch .stacked)
  | "help" => some (.switch .help)
  | "version" => some (.switch .version)
  | _ => none

/-- The option of a letter. -/
def Choice.ofLetter? : Char → Option Choice
  | 'o' => some (.setting .output)
  | 's' => some (.setting .symbol)
  | 'c' => some (.setting .config)
  | 'h' => some (.switch .help)
  | 'V' => some (.switch .version)
  | _ => none

/-! ## 1. Options one by one -/

/-- **What has been taken so far.**  An option may be waiting: for its value, or with it for what
comes next.  Behind `--` there are only inputs. -/
structure Progress where
  input : Option String := none
  output : Option String := none
  symbols : List String := []
  stacked : Bool := false
  config : Option String := none
  logLevel : Option String := none
  waiting : Option (Setting × Option String) := none
  onlyInputs : Bool := false

namespace Progress

/-- Keeps the value of an option that may be given once. -/
def once (old : Option String) (value : String) : Except Refusal (Option String) :=
  if old.isSome then .error .givenTwice else .ok (some value)

/-- Gives an option its value.  What the value says is not looked at here. -/
def give (p : Progress) (setting : Setting) (value : String) : Except Refusal Progress := do
  match setting with
  | .output => return { p with output := ← once p.output value }
  | .symbol => return { p with symbols := p.symbols ++ [value] }
  | .config => return { p with config := ← once p.config value }
  | .logLevel => return { p with logLevel := ← once p.logLevel value }

/-- Looks at the option that is waiting, if there is one. -/
def settle (p : Progress) : Except Refusal Progress :=
  match p.waiting with
  | none => .ok p
  | some (_, none) => .error .missingValue
  | some (setting, some value) => ({ p with waiting := none }).give setting value

/-- Takes an option, perhaps with a value in the same word. -/
def choose (p : Progress) (choice : Choice) (value? : Option String) : Except Refusal Progress := do
  match choice, value? with
  | .setting setting, some value => (← p.settle).give setting value
  | .setting setting, none => return { (← p.settle) with waiting := some (setting, none) }
  | .switch _, some _ => throw .unwantedValue
  | .switch .help, none => let _ ← p.settle; throw .help
  | .switch .version, none => let _ ← p.settle; throw .version
  | .switch .stacked, none =>
    let p ← p.settle
    if p.stacked then throw .givenTwice else return { p with stacked := true }

/-- Takes the input. -/
def takeInput (p : Progress) (word : String) : Except Refusal Progress := do
  if p.input.isSome then throw .unknownWord else return { (← p.settle) with input := some word }

/-- Takes a word that is no option: a value, if one is waited for, or the input. -/
def takePlain (p : Progress) (word : String) : Except Refusal Progress :=
  match p.waiting with
  | some (setting, none) => .ok { p with waiting := some (setting, some word) }
  | _ => p.takeInput word

/-- A long option: its name, and its value if an equals sign follows. -/
def splitLong (s : List Char) : String × Option String :=
  (String.ofList (s.takeWhile (· != '=')),
    ((s.dropWhile (· != '=')).tail?).map String.ofList)

/-- What stands behind the letter of an option, without an equals sign at its beginning. -/
def splitShort : List Char → Option String
  | [] => none
  | '=' :: value => some (String.ofList value)
  | value => some (String.ofList value)

/-- **Takes one word,** which begins an option, is the value of the one before, or is the input.  A
single letter may have its value right behind it, and a long name behind a sign of equality. -/
def take (p : Progress) (word : String) : Except Refusal Progress :=
  if p.onlyInputs then p.takeInput word else
  match word.toList with
  | ['-', '-'] => .ok { p with onlyInputs := true }
  | '-' :: '-' :: long =>
    let (name, value?) := splitLong long
    match Choice.ofName? name with
    | some choice => p.choose choice value?
    | none => .error .unknownWord
  | '-' :: letter :: rest =>
    match Choice.ofLetter? letter with
    | some (.switch switch) => p.choose (.switch switch) none
    | some (.setting setting) => p.choose (.setting setting) (splitShort rest)
    | none => .error .unknownWord
  | _ => p.takePlain word

/-- What has been taken as a whole. -/
def finish (p : Progress) : Except Refusal Arguments := do
  let p ← p.settle
  let some input := p.input | throw .missingInput
  let usual : Arguments := { input }
  return { usual with
    output := p.output.getD usual.output
    symbols := p.symbols
    stacked := p.stacked
    config := p.config
    logLevel := p.logLevel.getD usual.logLevel }

end Progress

/-- **Reads a command line.**  There must be an input. -/
def read (words : List String) : Except Refusal Arguments := do
  (← words.foldlM Progress.take {}).finish

end Arguments

end Railroad
