/-
# The program

`main` reads the command line, gives a run access to the files of the machine, and tells what came
of it: nothing if all went well, and reports of what did not.  All else is decided by
`Arguments.read` and `Command.run`.

This is the one place where anything happens outside of the program.  A run is written over
arbitrary access to files (`FileAccess`), and here it is given that of the machine; what is proved
of runs is proved of the same run over files that are kept in memory
(`Railroad.Proofs.Command.Run`).
-/
import Railroad.Command.Report
import Railroad.Command.Run
import Railroad.Standard

namespace Railroad.Command

/-- What an action answers, or why it failed. -/
def attempt {β : Type} (action : IO β) : IO (Except String β) := do
  try return .ok (← action) catch e => return .error (toString e)

/-- Access to the files of the machine. -/
instance : FileAccess IO where
  has path := return (← attempt (IO.FS.realPath path)).isOk
  read path := do
    match ← attempt (IO.FS.readBinFile path) with
    | .error reason => return .error reason
    | .ok content =>
      match String.fromUTF8? content with
      | some text => return .ok text
      | none => return .error "the file holds no text"
  makeDirectory path := if path.isEmpty then return .ok () else attempt (IO.FS.createDirAll path)
  write path text := attempt (IO.FS.writeFile path text)

/-- How the program is called, line by line. -/
def usage : List String :=
  ["Usage: railroad [OPTIONS] <INPUT>", "",
    "Arguments:", "  <INPUT>  Path to the input grammar", "",
    "Options:",
    "  -o, --output <OUTPUT>        Directory the SVG files are written to [default: out]",
    "  -s, --symbol <SYMBOLS>       Production to draw; repeat for several",
    "      --stacked                Draw all selected productions into one SVG, top to bottom",
    "  -c, --config <CONFIG>        Path to configuration file (TOML)",
    "      --log-level <LOG_LEVEL>  off, error, warn, info, debug or trace [default: info]",
    "  -h, --help                   Print help",
    "  -V, --version                Print version"]

/-- What is said of a command line that is not followed. -/
def refusalText : Arguments.Refusal → String
  | .missingInput => "the path to the input grammar is missing"
  | .unknownWord => "unexpected argument"
  | .missingValue => "a value is required for an option"
  | .givenTwice => "an option cannot be used multiple times"
  | .unwantedValue => "an option takes no value"
  | .help => "help"
  | .version => "railroad 0.1.0"

/-- Where the user keeps the settings of programs. -/
def userConfig : IO (Option String) := do
  let directory ← match ← IO.getEnv "XDG_CONFIG_HOME" with
    | some path => if path.startsWith "/" then pure (some path) else pure none
    | none => pure none
  let home ← IO.getEnv "HOME"
  return (directory <|> home.map (Path.join · ".config")).map (Path.join · "trestle/config.toml")

/-- Tells of a failure. -/
def tell (failure : Failure Float32) : IO Unit := do
  for report in Report.ofFailure failure do
    for line in report.lines do IO.eprintln line

/-- Does what a command line asks for, and tells what failed.  The answer is the code that the
program ends with, zero if nothing failed. -/
def perform (args : Arguments) : IO UInt32 := do
  let quiet := args.logLevel == "off"
  let result ← (run (← userConfig) args : ExceptT (Failure Float32) IO Outcome).run
  match result with
  | .error failure =>
    unless quiet do tell failure
    return 1
  | .ok outcome =>
    unless quiet do
      for (name, failure) in outcome.failures do
        IO.eprintln ("Production could not be drawn: " ++ name)
        tell failure
    return if outcome.isSuccess then 0 else 1

end Railroad.Command

open Railroad in
def main (words : List String) : IO UInt32 := do
  match Arguments.read words with
  | .ok args => Command.perform args
  | .error .help => Command.usage.forM IO.println; return 0
  | .error .version => IO.println (Command.refusalText .version); return 0
  | .error refusal =>
    IO.eprintln ("error: " ++ Command.refusalText refusal)
    Command.usage.forM IO.eprintln
    return 2
