/-
# Reports

A report is what is told about a failure: what happened, under which code, and how to mend it.  A
grammar that cannot be read is reported mistake by mistake, each with the places it is about;
anything else is one report.

A failure keeps what every stage said (`Railroad.Failure`), and this is the place where it is turned
into something for a reader.  Codes of mistakes in a grammar are those of the diagnostics; the
failures of the other stages have codes of their own here (`failure_code`), and some a hint at what
to do (`failure_help`).
-/
import Railroad.Failure
import Railroad.Standard

namespace Railroad

/-- **A report.**  `source` is the text that the labels are about, and `cause` what brought the
failure about.  A report without labels needs no source. -/
structure Report where
  text : String
  code : Option String := none
  help : Option String := none
  source : Option String := none
  cause : Option String := none
  labels : List Ebnf.Label := []

namespace Report

/-- The report of a mistake in a grammar. -/
def ofDiagnostic (source : String) (d : Ebnf.Diagnostic) : Report where
  text := d.message
  code := d.code.map Ebnf.Code.text
  help := d.help
  source := some source
  labels := d.labels

/-- **The reports of a failure,** `to_reports`.  There is at least one, but for a grammar text whose
failure has no diagnostics. -/
def ofFailure (f : Failure Float32) : List Report :=
  let text := f.message
  match f with
  | .parse e source => e.diagnostics.map (ofDiagnostic source)
  | .io reason =>
    [{ text, code := some "trestle::io", cause := some reason
       help := some "check that the input exists and the output directory is writable" }]
  | .build e => [{ text, code := some "trestle::build", cause := some e.message }]
  | .lookup _ =>
    [{ text, code := some "trestle::lookup"
       help := some "only productions defined in the grammar can be drawn" }]
  | .geometry e => [{ text, code := some "trestle::geometry", cause := some e.message }]
  | .config _ =>
    [{ text, code := some "trestle::config"
       help := some "check the TOML syntax; colors accept CSS names or hex values such as `#336699`" }]
  | .output _ => [{ text, code := some "trestle::export" }]

/-- A report in lines of text. -/
def lines (r : Report) : List String :=
  let heading := match r.code with
    | some code => "error[" ++ code ++ "]: " ++ r.text
    | none => "error: " ++ r.text
  let place (l : Ebnf.Label) : String :=
    "  bytes " ++ toString l.span.start ++ " to " ++ toString l.span.stop ++ ": " ++ l.message
  heading :: r.labels.map place ++ (r.help.map ("  help: " ++ ·)).toList

end Report

end Railroad
