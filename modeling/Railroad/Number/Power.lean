/-
# Powers of the two bases

Numbers are kept to the base of two and written to the base of ten.  The powers have names of their
own because `2 ^ n` can be read in more than one way, with Mathlib and without it; named, they are
the same number in every module.
-/

namespace Railroad.Number

/-- The power `2 ^ n`. -/
def twoTo (n : Nat) : Nat := Nat.pow 2 n

/-- The power `10 ^ n`. -/
def tenTo (n : Nat) : Nat := Nat.pow 10 n

end Railroad.Number
