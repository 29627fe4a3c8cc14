/-
# Expressions

The right-hand side of a production: quoted terminals and references to other productions, put
in sequence or in alternation, made optional or repeated.  A production gives an expression a
name.

An expression keeps the words in which a production is written, not only what it stands for: a
sequence may stand inside a sequence, and an alternation may have a single branch.  So there are
expressions that no grammar text reads as, and those who build them by hand can give any of them to
the compiler.  A sequence or an alternation without any items is the one kind that has no graph
(`Railroad.Build.Compile`).

Expressions are compared with their styles (`Expr.beq`): two references to the same production
in different colors are different expressions, and a repetition is not made one with what stands
next to it when only the names agree.
-/
import Railroad.Style

namespace Railroad

/-- A named leaf with its style.  Whether it is a terminal or a reference is said by the
constructor it stands in. -/
structure Leaf where
  name : String
  style : NodeStyle := {}

instance : BEq Leaf where
  beq a b := a.name == b.name && a.style == b.style

/-- **The right-hand side of a production.**  Sequences and alternations take any number of items,
zero and one included. -/
inductive Expr where
  /-- A quoted terminal. -/
  | literal (leaf : Leaf)
  /-- A reference to a production. -/
  | identifier (leaf : Leaf)
  /-- The empty word. -/
  | empty
  | sequence (items : List Expr)
  | alternation (branches : List Expr)
  /-- Once or not at all. -/
  | optional (inner : Expr)
  /-- Any number of times. -/
  | repetition (inner : Expr)
  /-- At least once. -/
  | oneOrMore (inner : Expr)
deriving Inhabited

namespace Expr

mutual

/-- The same shape with the same leaves, styles included. -/
protected def beq : Expr → Expr → Bool
  | .literal a, .literal b => a == b
  | .identifier a, .identifier b => a == b
  | .empty, .empty => true
  | .sequence a, .sequence b => Expr.beqList a b
  | .alternation a, .alternation b => Expr.beqList a b
  | .optional a, .optional b => Expr.beq a b
  | .repetition a, .repetition b => Expr.beq a b
  | .oneOrMore a, .oneOrMore b => Expr.beq a b
  | _, _ => false

/-- Equality of two lists of expressions, item by item. -/
protected def beqList : List Expr → List Expr → Bool
  | [], [] => true
  | a :: as, b :: bs => Expr.beq a b && Expr.beqList as bs
  | _, _ => false

end

instance : BEq Expr := ⟨Expr.beq⟩

/-- The items of a sequence; any other expression is its own only item. -/
def items : Expr → List Expr
  | .sequence items => items
  | e => [e]

end Expr

/-- A named expression.  Two productions may have the same name; of those the later one counts. -/
structure Production where
  name : String
  expr : Expr

end Railroad
