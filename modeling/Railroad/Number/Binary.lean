/-
# Binary floating-point numbers, taken apart

A floating-point number is kept as bits: a sign, an exponent and a fraction.  `Binary` is
what the bits say -- a sign and `mantissa · 2 ^ exponent`, or one of the values that are no
number -- for the 32-bit and the 64-bit format alike.

Reading the bits is exact (`ofFloat32`, `ofFloat64`).  Going back may round, and `toFloat32`
does it once, to the nearest number and of two equally near to the one with an even mantissa.
`narrow` joins the two: it carries a 64-bit number over to 32 bits.

Taken apart, a number can be written exactly (`Railroad.Number.Shortest`) and compared with what is
known of arithmetic (`Railroad.Proofs.Number`).  The numbers of a layout themselves are not kept
this way: they stay `Float32`, and this is only what is behind them.
-/
import Railroad.Number.Power

namespace Railroad.Number

/-- What the bits of a floating-point number say. -/
inductive Binary where
  | nan
  | infinite (negative : Bool)
  /-- The number `± mantissa · 2 ^ exponent`.  `atPower` says that the number below is only
  half as far away as the one above: the mantissa is the smallest of its exponent. -/
  | finite (negative : Bool) (mantissa : Nat) (exponent : Int) (atPower : Bool)
deriving Repr, DecidableEq

namespace Binary

/-- Reads `bits` laid out as a sign, `exponentBits` of exponent and `fractionBits` of fraction. -/
def ofBits (exponentBits fractionBits bits : Nat) : Binary :=
  let fraction := bits % twoTo fractionBits
  let biased := bits / twoTo fractionBits % twoTo exponentBits
  let negative := bits / twoTo (fractionBits + exponentBits) % 2 == 1
  let lowest : Int := 2 - twoTo (exponentBits - 1) - fractionBits
  if biased == twoTo exponentBits - 1 then
    if fraction == 0 then .infinite negative else .nan
  else if biased == 0 then
    .finite negative fraction lowest false
  else
    .finite negative (twoTo fractionBits + fraction) (lowest + (biased - 1)) (fraction == 0 && 1 < biased)

/-- The value of a 32-bit number. -/
def ofFloat32 (x : Float32) : Binary := ofBits 8 23 x.toBits.toNat

/-- The value of a 64-bit number. -/
def ofFloat64 (x : Float) : Binary := ofBits 11 52 x.toBits.toNat

/-- `mantissa / 2 ^ places`, to the nearest whole number and of two to the even one. -/
def shiftNearest (mantissa places : Nat) : Nat :=
  let unit := twoTo places
  let quotient := mantissa / unit
  let rest := 2 * (mantissa % unit)
  if rest < unit then quotient
  else if unit < rest then quotient + 1
  else quotient + quotient % 2

/-- **The bits of `mantissa · 2 ^ exponent` in 32 bits, sign aside.**  The mantissa is brought
to 24 bits, or to the last place of the smallest numbers, and rounded there.  Adding the
rounded mantissa to the exponent field lets a carry move to the next exponent, and on into
infinity, by itself. -/
def magnitudeBits32 (mantissa : Nat) (exponent : Int) : Nat :=
  if mantissa == 0 then 0 else
  let top : Int := mantissa.log2 + exponent
  let last := max (top - 23) (-149)
  let rounded :=
    if exponent < last then shiftNearest mantissa (last - exponent).toNat
    else mantissa * twoTo (exponent - last).toNat
  let biased := (last + 149).toNat
  min (biased * twoTo 23 + rounded) (255 * twoTo 23)

/-- The nearest 32-bit number. -/
def toFloat32 : Binary → Float32
  | .nan => Float32.ofBits 0x7FC00000
  | .infinite negative => Float32.ofBits (if negative then 0xFF800000 else 0x7F800000)
  | .finite negative mantissa exponent _ =>
    let bits := magnitudeBits32 mantissa exponent
    Float32.ofBits (UInt32.ofNat (if negative then twoTo 31 + bits else bits))

end Binary

/-- **A 64-bit number in 32 bits,** rounded to nearest; too large a number becomes infinite. -/
def narrow (x : Float) : Float32 := (Binary.ofFloat64 x).toFloat32

end Railroad.Number
