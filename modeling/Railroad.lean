import Railroad.Expr.Printer
import Railroad.Main
import Railroad.Proofs.Graph.Linked
import Railroad.Proofs.Graph.Levels
import Railroad.Proofs.Graph.Closed
import Railroad.Proofs.Graph.Renumbered
import Railroad.Proofs.Build.Fragment
import Railroad.Proofs.Build.Shape
import Railroad.Proofs.Build.Cuts
import Railroad.Proofs.Build.Faults
import Railroad.Proofs.Build.Exits
import Railroad.Proofs.Build.Language
import Railroad.Proofs.Layout.Wraps
import Railroad.Proofs.Layout.Idle
import Railroad.Proofs.Layout.Pages
import Railroad.Proofs.Layout.Breaks
import Railroad.Proofs.Layout.Sizes
import Railroad.Proofs.Layout.History
import Railroad.Proofs.Layout.Integrity
import Railroad.Proofs.Expr.Flat
import Railroad.Proofs.Build.Reading
import Railroad.Proofs.Build.Serials
import Railroad.Proofs.Build.Parallel
import Railroad.Proofs.Ebnf.Tokens
import Railroad.Proofs.Ebnf.Derivation
import Railroad.Proofs.Ebnf.Reader
import Railroad.Proofs.Ebnf.RoundTrip
import Railroad.Proofs.Build.Written
import Railroad.Proofs.Ebnf.GraphText
import Railroad.Proofs.Ebnf.Completion
import Railroad.Proofs.Ebnf.Location
import Railroad.Proofs.Graph.Items
import Railroad.Proofs.Layout.Rows
import Railroad.Proofs.Layout.LaidOut
import Railroad.Proofs.Layout.Tiling
import Railroad.Proofs.Layout.RowPolicy
import Railroad.Proofs.Layout.Exact
import Railroad.Proofs.Layout.Nesting
import Railroad.Proofs.Layout.Drawable
import Railroad.Proofs.Number.Overflow
import Railroad.Proofs.Layout.Totals
import Railroad.Proofs.Layout.Renumbered
import Railroad.Proofs.Graph.Found
import Railroad.Proofs.Drawing.Walks
import Railroad.Proofs.Drawing.Pen
import Railroad.Proofs.Drawing.Signs
import Railroad.Proofs.Drawing.Widths
import Railroad.Proofs.Drawing.Apart
import Railroad.Proofs.Layout.Reach
import Railroad.Proofs.Drawing.Rails
import Railroad.Proofs.Drawing.Confined
import Railroad.Proofs.Drawing.OnPage
import Railroad.Proofs.Drawing.Renumbered
import Railroad.Proofs.Grammar.Reached
import Railroad.Proofs.Grammar.Definitions
import Railroad.Proofs.Grammar.Independence
import Railroad.Proofs.Drawing.ReadingOrder
import Railroad.Proofs.Drawing.Styles
import Railroad.Proofs.Drawing.Borders
import Railroad.Proofs.Grammar.Source
import Railroad.Proofs.Command.Run
import Railroad.Proofs.Command.Stems
import Railroad.Proofs.Drawing.Stacked
import Railroad.Proofs.Build.Longest
import Railroad.Proofs.Graph.Matches
import Railroad.Proofs.Build.Missed
import Railroad.Proofs.Number.Equality
import Railroad.Proofs.Color.Identity
import Railroad.Proofs.Drawing.OtherPages
import Railroad.Proofs.Ebnf.Agreement
