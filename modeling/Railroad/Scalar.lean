/-
# The numbers a drawing is measured in

A diagram is laid out with a handful of number operations: the four arithmetic ones, two
comparisons, decimal constants and a test for finiteness.  `Scalar` names them, and
everything that measures or places a node is written over an arbitrary scalar.

Two scalars are given:

* `Float32`, in which a diagram is really laid out, each operation rounded;
* `Rat`, the exact reading of the same formulas, in which nothing rounds or overflows.

What a definition does at `Float32` is what the program prints; what can be proved of it at
`Rat` is what the formulas mean.  Results that are about the shape of the computation alone,
such as where rows are broken or which box is placed where, are proved for every scalar and
hold of both.  Only what needs the laws of an ordered field, such as that boxes do not overlap,
is stated at `Rat`.

No law is asked of a scalar.  Sums of numbers are therefore always written as the fold the
program runs, from the left and from zero on, and a maximum as the fold of `larger`: with
rounding, another order or another start would be another number.
-/

namespace Railroad

/-- **The number operations of a layout.**  The comparisons are tests, false when either side
is not a number, and `isFinite` is false on infinities and on values that are not numbers.
`ofNat` is the conversion of a count or of a font size; it rounds at `Float32` when the number
is large.

No law is asked of any of them.  What is proved for all numbers is proved without laws; where laws
are needed the numbers are exact ones (`Rat`), and where bits matter they are `Float32`. -/
class Scalar (α : Type) extends Add α, Sub α, Mul α, Div α, Neg α, OfScientific α where
  le : α → α → Bool
  lt : α → α → Bool
  ofNat : Nat → α
  isFinite : α → Bool

instance : Scalar Float32 where
  le := Float32.le
  lt := Float32.lt
  ofNat := Float32.ofNat
  isFinite := Float32.isFinite

instance : Scalar Rat where
  le a b := decide (a ≤ b)
  lt a b := decide (a < b)
  ofNat n := n
  isFinite _ := true

namespace Scalar

variable {α : Type} [Scalar α]

/-- The larger of two numbers, `max`.  Of two that are equal the second is taken, which decides
between the zeros of the two signs.  A value that is not a number (it is not at most itself)
gives way to the other. -/
def larger (a b : α) : α :=
  if lt b a then a else if le b b then b else a

/-- The largest of a list and zero.  The heights above and below the line of a row are found
this way, so an empty row has none. -/
def largest (values : List α) : α := values.foldl larger 0.0

/-- The sum of a list, added up from the left starting at zero.  At `Float32` every partial sum
is rounded, so the order matters. -/
def total (values : List α) : α := values.foldl (· + ·) 0.0

/-- Equal to zero; both zeros are. -/
def isZero (a : α) : Bool := le a 0.0 && le 0.0 a

/-- Finite and not below zero: the test that a length has to pass before it is drawn or taken
from settings. -/
def isUsable (a : α) : Bool := isFinite a && le 0.0 a

end Scalar

end Railroad
