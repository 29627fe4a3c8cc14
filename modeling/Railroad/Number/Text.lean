/-
# Numbers as text

Numbers are written by the fewest digits that read back.  Where the point goes is a matter of
style, and two styles are in use:

* `Style.plain`, the numbers of a drawing and of most messages: positional however large or
  small the number is, and without a fraction when it is whole;
* `Style.exact`, the numbers of a geometry message: a whole number keeps `.0`, and a number of
  seventeen digits or more, or below one ten-thousandth, has an exponent.

Values that are no ordinary numbers have texts too.  They can come into a message, and into a
drawing where a layout was not checked for them; then the text is a word such as `inf`.
-/
import Railroad.Number.Binary
import Railroad.Number.Shortest

namespace Railroad.Number

/-- **How a number is laid out.**  `fraction` keeps a fraction on whole numbers, and
`positional` says for which exponents of the leading digit no exponent is written. -/
structure Style where
  fraction : Bool
  positional : Int → Bool

namespace Style

/-- Positional throughout, and whole numbers without a fraction. -/
def plain : Style where
  fraction := false
  positional _ := true

/-- Whole numbers keep `.0`; from `1e16` up and below `1e-4` there is an exponent. -/
def exact : Style where
  fraction := true
  positional e := -4 ≤ e && e < 16

/-- `n` zeros. -/
private def zeros (n : Nat) : String := String.ofList (List.replicate n '0')

/-- Digits with a point after the first `whole` of them. -/
private def point (digits : List Char) (whole : Nat) : String :=
  String.ofList (digits.take whole) ++ "." ++ String.ofList (digits.drop whole)

/-- The text of a positive decimal: its digits with zeros on either side as far as the point, or
with an exponent. -/
def magnitude (style : Style) (d : Decimal) : String :=
  let digits := (Nat.repr d.significand).toList
  let leading : Int := d.exponent + digits.length - 1
  if style.positional leading then
    if 0 ≤ d.exponent then
      String.ofList digits ++ zeros d.exponent.toNat ++ (if style.fraction then ".0" else "")
    else if 0 ≤ leading then
      point digits (leading + 1).toNat
    else
      "0." ++ zeros (-leading - 1).toNat ++ String.ofList digits
  else
    let mantissa := if digits.length ≤ 1 then String.ofList digits else point digits 1
    mantissa ++ "e" ++ toString leading

/-- **The text of a number.**  A zero keeps its sign.  A whole number without a fraction may be
written with one, as the style says. -/
def text (style : Style) : Binary → String
  | .nan => "NaN"
  | .infinite negative => if negative then "-inf" else "inf"
  | .finite negative mantissa exponent atPower =>
    let sign := if negative then "-" else ""
    if mantissa == 0 then sign ++ (if style.fraction then "0.0" else "0")
    else sign ++ style.magnitude (Interval.ofBinary mantissa exponent atPower).shortest

end Style

/-- A number as a drawing shows it. -/
def plain (x : Float32) : String := Style.plain.text (Binary.ofFloat32 x)

/-- A number as a geometry message shows it. -/
def exact (x : Float32) : String := Style.exact.text (Binary.ofFloat32 x)

end Railroad.Number
