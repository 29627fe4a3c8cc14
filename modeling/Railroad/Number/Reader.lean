/-
# Numbers read from digits

Digits are read as a whole number, and a decimal is carried over to 64 bits.  Decimals can have
exponents that no number of 64 bits comes near; `Decimal.toFloat` does not go there.

What is read are the digits that a reader has already found to be digits, so nothing is checked
here except by `ofDigits?`, which serves bases of which not every digit is one.  Signs are put on by
the readers themselves, since a zero has a sign too.
-/
import Railroad.Number.Shortest

namespace Railroad.Number

/-- The value of decimal digits. -/
def ofDigits (digits : List Char) : Nat :=
  digits.foldl (fun n c => 10 * n + (c.toNat - '0'.toNat)) 0

/-- The value of a digit of the hexadecimal system. -/
def hexDigit? (c : Char) : Option Nat :=
  if '0' ≤ c ∧ c ≤ '9' then some (c.toNat - '0'.toNat)
  else if 'a' ≤ c ∧ c ≤ 'f' then some (c.toNat - 'a'.toNat + 10)
  else if 'A' ≤ c ∧ c ≤ 'F' then some (c.toNat - 'A'.toNat + 10)
  else none

/-- The value of digits to a base of at most sixteen. -/
def ofDigits? (base : Nat) (digits : List Char) : Option Nat :=
  digits.foldlM (fun n c => do
    let digit ← hexDigit? c
    if digit < base then some (base * n + digit) else none) 0

/-- The nearest number of 64 bits.  Decimals above and below all of these are infinite and zero,
whatever their exponent. -/
def Decimal.toFloat (d : Decimal) : Float :=
  let digits : Int := (Nat.repr d.significand).length
  if d.significand == 0 || d.exponent + digits < -400 then 0.0
  else if 400 < d.exponent + digits then 1.0 / 0.0
  else Float.ofScientific d.significand (d.exponent < 0) d.exponent.natAbs

end Railroad.Number
