/-
# The shortest decimal that reads back

A binary number stands for every real that rounds to it: an interval around it, whose ends
belong to it exactly when its mantissa is even.  `Interval.ofBinary` is that interval, kept as
whole numbers over one denominator, so that nothing below rounds.

`Interval.shortest` looks for a decimal in it, on coarser grids first: the multiples of
`10 ^ k` for falling `k`.  On one grid only the two neighbours of the value can be nearest, so
`Interval.onGrid` tests these two.  The first grid with a hit has the fewest digits, of two
hits the nearer wins, and of two equally near the larger.

This is how every number of a drawing is written: a coordinate that is read again is the
coordinate that was meant, and no digit more is written than is needed for that.
-/
import Railroad.Number.Power

namespace Railroad.Number

/-- The number `significand · 10 ^ exponent`. -/
structure Decimal where
  significand : Nat
  exponent : Int
deriving Repr, DecidableEq

/-- **The reals that round to one binary number:** those between `low` and `high`, around
`value`, all three over `denominator`.  The ends belong to it if it is `closed`. -/
structure Interval where
  low : Nat
  value : Nat
  high : Nat
  denominator : Nat
  closed : Bool
deriving Repr

namespace Interval

/-- The interval of `mantissa · 2 ^ exponent`.  It reaches half of the way to either neighbour;
the lower neighbour is only half as far away when the number is `atPower`. -/
def ofBinary (mantissa : Nat) (exponent : Int) (atPower : Bool) : Interval :=
  let quarter := exponent - 2
  let scale := twoTo quarter.toNat
  { low := (4 * mantissa - if atPower then 1 else 2) * scale
    value := 4 * mantissa * scale
    high := (4 * mantissa + 2) * scale
    denominator := twoTo (-quarter).toNat
    closed := mantissa % 2 == 0 }

/-- The nearest multiple of `10 ^ k` in the interval, as that many times `10 ^ k`. -/
def onGrid (i : Interval) (k : Int) : Option Nat :=
  let fine := tenTo (-k).toNat
  let step := i.denominator * tenTo k.toNat
  let below := i.value * fine / step
  let rest := i.value * fine % step
  let inside (a b : Nat) : Bool := if i.closed then a ≤ b else a < b
  let belowHits := inside (i.low * fine) (below * step)
  let aboveHits := inside ((below + 1) * step) (i.high * fine)
  if belowHits && (!aboveHits || 2 * rest < step) then some below
  else if aboveHits then some (below + 1)
  else none

/-- The exponent of the leading digit of the value: `10 ^ e ≤ value < 10 ^ (e + 1)`. -/
def leadingExponent (i : Interval) : Int :=
  let places := (Nat.repr i.denominator).length
  ((Nat.repr (i.value * tenTo places / i.denominator)).length : Int) - 1 - places

/-- **The shortest decimal in the interval.**  Twenty grids are tried, from one above the leading
digit down; a number of 64 bits needs at most eighteen of them.  On each grid the interval holds a
point or not, and the coarsest grid that has one wins. -/
def shortest (i : Interval) : Decimal :=
  let top := i.leadingExponent + 1
  let grids := (List.range 20).map fun (down : Nat) => top - (down : Int)
  (grids.findSome? fun k => (i.onGrid k).map (Decimal.mk · k)).getD ⟨0, 0⟩

end Interval

end Railroad.Number
