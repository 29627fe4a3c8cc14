/-
# Graphs as text

A graph is written in the grammar notation again, `unparse`.  What it says is what its production
says, but not always in the same words: an alternation always has parentheses, and a rerun is
written out as its body followed by the repetition of what comes in between and the body.  Places
where a row may end leave no trace, so a graph says the same before and after it was laid out.

The text is made from the tree of the graph (`Graph.track`), and a level without any node says
nothing.  That the text of a compiled production reads as an expression of the same language is the
subject of `Railroad.Proofs.Ebnf.GraphText`.
-/
import Railroad.Graph.Track
import Railroad.Text.Quoted

namespace Railroad

namespace Track

variable {β : Type}

mutual

/-- The texts of the nodes of a level; `symbol` is the text of a symbol.  A node may give more than
one, as a rerun does, or none, as a wrap. -/
def texts (symbol : β → String) : Track β → List String
  | .stop => []
  | .symbol b rest => symbol b :: rest.texts symbol
  | .epsilon _ rest => "()" :: rest.texts symbol
  | .wrap _ rest => rest.texts symbol
  | .optional _ body rest =>
    ("[ " ++ " ".intercalate (body.texts symbol) ++ " ]") :: rest.texts symbol
  | .iteration _ body rest =>
    ("\x7b " ++ " ".intercalate (body.texts symbol) ++ " \x7d") :: rest.texts symbol
  | .rerun _ body between rest =>
    let once := " ".intercalate (body.texts symbol)
    let again := if between.isStop then once else " ".intercalate (between.texts symbol) ++ " " ++ once
    (once ++ " \x7b " ++ again ++ " \x7d") :: rest.texts symbol
  | .choice branches rest =>
    ("( " ++ " | ".intercalate (branchTexts symbol branches) ++ " )") :: rest.texts symbol

/-- The texts of the branches of an alternation. -/
def branchTexts (symbol : β → String) : Branches β → List String
  | .last _ body => [" ".intercalate (body.texts symbol)]
  | .more _ body others => " ".intercalate (body.texts symbol) :: branchTexts symbol others

end

/-- The text of a level. -/
def text (symbol : β → String) (track : Track β) : String := " ".intercalate (track.texts symbol)

end Track

/-- The name of a node's symbol, or nothing where the node has none that is known. -/
def Node.name (symbols : SymbolTable) (node : Node) : String :=
  ((node.symbol.bind symbols.name?).getD "")

/-- The text of a symbol node: a terminal is quoted, the name of a nonterminal stands as it is. -/
def Node.text (symbols : SymbolTable) (node : Node) : String :=
  match node.kind with
  | .terminal => Text.quote (node.name symbols)
  | _ => node.name symbols

/-- **The text of a graph,** the right-hand side without a name in front.  Wraps are not seen in it.
-/
def Graph.text (symbols : SymbolTable) (g : Graph) : String :=
  g.track.text fun spot => spot.node.text symbols

end Railroad
