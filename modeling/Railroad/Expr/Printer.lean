/-
# Expressions as text

The printer writes an expression in the notation it can be read from.  Alternation binds least,
so an alternation directly inside a sequence is put in parentheses; every other construct
brings its own brackets.

Names are written as they are, and terminals in double quotes with the escapes of `Text.quote`.  The
notation knows no escapes, so a terminal is read back as what it was only if there is nothing in it
to escape.  Styles leave no trace, and a sequence inside a sequence loses its borders.  Up to these
the text of an expression reads as the expression again: `Railroad.Proofs.Ebnf.RoundTrip`.
-/
import Railroad.Expr.Basic
import Railroad.Text.Quoted

namespace Railroad

namespace Expr

/-- An alternation at the top, which a sequence around it has to put in parentheses. -/
def isAlternation : Expr → Bool
  | .alternation _ => true
  | _ => false

mutual

/-- **The text of an expression.**  What stands inside brackets is set off from them by blanks, and
the empty word is an empty pair of parentheses.  Parentheses are put around an alternation in a
sequence and nowhere else, so text does not show how sequences are nested. -/
def text : Expr → String
  | .literal leaf => Text.quote leaf.name
  | .identifier leaf => leaf.name
  | .empty => "()"
  | .sequence items => " ".intercalate (itemTexts items)
  | .alternation branches => " | ".intercalate (branchTexts branches)
  | .optional inner => "[ " ++ text inner ++ " ]"
  | .repetition inner => "\x7b " ++ text inner ++ " \x7d"
  | .oneOrMore inner => "\x7b " ++ text inner ++ " \x7d+"

/-- The texts of the items of a sequence. -/
def itemTexts : List Expr → List String
  | [] => []
  | item :: rest => (if item.isAlternation then "( " ++ text item ++ " )" else text item) :: itemTexts rest

/-- The texts of the branches of an alternation. -/
def branchTexts : List Expr → List String
  | [] => []
  | branch :: rest => text branch :: branchTexts rest

end

end Expr

/-- A production with its definition sign and its full stop.  Of the two signs and the two ends that
the notation knows the short sign and the full stop are written. -/
def Production.text (p : Production) : String := p.name ++ " = " ++ p.expr.text ++ " ."

end Railroad
