/-
# Colors

A color keeps the way it was given: the space its components are in, whether it was written as
a name, as red-green-blue bytes or in no such special way, and which components were left open.
Its text gives that back, so two colors that look alike need not be equal: `red` and `#f00`
differ, `#f00` and `rgb(255 0 0)` do not.

Nothing in a drawing depends on what a color looks like.  It is carried along, put into an attribute
as its text, and compared when the styles of two leaves are (`NodeStyle`).  So the record says what
there is to a color, and the operations are the ones that are used on it: equality, another opacity,
and the text.

Numbers are compared as numbers and written as they are.  The two do not quite agree, since zero has
two signs that are equal and are written differently; what follows from that is in
`Railroad.Proofs.Color.Library`, over any library of colors, with this one as the instance
(`Color.css`).
-/
import Railroad.Number.Text

namespace Railroad

/-- The space in which the components of a color are measured.  Nothing is converted between
spaces. -/
inductive Color.Space where
  | srgb | srgbLinear | displayP3 | a98Rgb | prophotoRgb | rec2020 | xyzD50 | xyzD65
  | lab | lch | oklab | oklch | hsl | hwb
deriving Repr, DecidableEq

/-- How a color was written.  It decides the notation of the text, and colors that differ in it
are not equal. -/
inductive Color.Mark where
  /-- In a space, with its components as they are. -/
  | components
  /-- As bytes of red, green and blue. -/
  | bytes
  /-- By name. -/
  | name (name : String)
deriving Repr, DecidableEq

/-- **A color.**  A component is absent when it was given as `none`, and counts as zero then. -/
structure Color where
  space : Color.Space
  mark : Color.Mark
  first : Option Float32
  second : Option Float32
  third : Option Float32
  opacity : Option Float32

namespace Color

/-- The function that notes a color of this space down, and the space's name inside it if it
has no function of its own. -/
def Space.form : Space → String × Option String
  | .srgb => ("color", some "srgb")
  | .srgbLinear => ("color", some "srgb-linear")
  | .displayP3 => ("color", some "display-p3")
  | .a98Rgb => ("color", some "a98-rgb")
  | .prophotoRgb => ("color", some "prophoto-rgb")
  | .rec2020 => ("color", some "rec2020")
  | .xyzD50 => ("color", some "xyz-d50")
  | .xyzD65 => ("color", some "xyz-d65")
  | .lab => ("lab", none)
  | .lch => ("lch", none)
  | .oklab => ("oklab", none)
  | .oklch => ("oklch", none)
  | .hsl => ("hsl", none)
  | .hwb => ("hwb", none)

/-- Equal numbers, or both absent. -/
def sameComponent : Option Float32 → Option Float32 → Bool
  | none, none => true
  | some a, some b => a == b
  | _, _ => false

/-- **Two colors are equal** when they are written in the same way, in the same space, leave the
same components open and agree in the others as numbers. -/
protected def beq (a b : Color) : Bool :=
  a.space == b.space && a.mark == b.mark &&
    sameComponent a.first b.first && sameComponent a.second b.second &&
    sameComponent a.third b.third && sameComponent a.opacity b.opacity

instance : BEq Color := ⟨Color.beq⟩

/-- From 0, transparent, to 1, opaque.  An opacity that was left open counts as transparent. -/
def alpha (c : Color) : Float32 := c.opacity.getD 0.0

/-- **The same color with another opacity.**  It counts as written in its space from then on.  An
opacity that was left open stays open, and then nothing changes.  A color that was written by its
name is therefore written with its components afterwards, even if the opacity is what it was. -/
def withAlpha (c : Color) (alpha : Float32) : Color :=
  match c.opacity with
  | none => c
  | some _ => { c with mark := .components, opacity := some alpha }

/-- A color of bytes, which become parts of one by a factor that is rounded first. -/
def ofBytes (red green blue : Nat) (opacity : Nat) (mark : Mark) : Color :=
  let part (byte : Nat) : Option Float32 := some (Float32.ofNat byte * (1.0 / 255.0))
  { space := .srgb, mark, first := part red, second := part green, third := part blue
    opacity := part opacity }

/-! ## Text -/

/-- A component times `scale`, or `none`.  Bytes are kept as parts of one and written times
255. -/
def componentText (scale : Float32) : Option Float32 → String
  | none => "none"
  | some x => Number.plain (x * scale)

/-- **The text of a color.**  A name stands for itself, bytes are written with commas, and the
rest in the notation of the space.  The opacity is left out when the color is opaque. -/
def text (c : Color) : String :=
  let opacity (separator : String) : String :=
    if c.alpha < 1.0 then separator ++ componentText 1.0 c.opacity else ""
  match c.mark with
  | .name name => name
  | .bytes =>
    let parts := [c.first, c.second, c.third].map (componentText 255.0)
    (if c.alpha < 1.0 then "rgba(" else "rgb(") ++ ", ".intercalate parts ++ opacity ", " ++ ")"
  | .components =>
    let (function, space?) := c.space.form
    let parts := [c.first, c.second, c.third].map (componentText 1.0)
    function ++ "(" ++ " ".intercalate (space?.toList ++ parts) ++ opacity " / " ++ ")"

end Color

end Railroad
