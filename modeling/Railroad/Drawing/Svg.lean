/-
# Drawings as SVG

Every kind of mark has its SVG element.  A document is a background and the marks on top of it, one
group for each layer in use.

The elements are trees (`Xml`), and how a tree is written is left to a notation (`Xml.Notation`).
So everything that a document consists of, the groups, the elements in them, their attributes with
the numbers and colors, is data, and only the signs of XML are not.

Numbers are written in the shortest way that reads back as the same number (`Number.plain`).  A
color is written twice: as such, and its opacity as an attribute of its own.
-/
import Railroad.Color.Notation
import Railroad.Drawing.Layered
import Railroad.Drawing.Xml
import Railroad.Number.Text

namespace Railroad

open Number (plain)

variable [Color.Notation]

/-- The attributes of a stroke, `apply_stroke`.  Only a line that is broken up says how. -/
def Stroke.attributes (s : Stroke Float32) : List (String × String) :=
  [("stroke", Color.Notation.text s.color), ("stroke-opacity", plain s.color.alpha), ("stroke-width", plain s.width)] ++
    (s.dashes.pattern?.map fun pattern => ("stroke-dasharray", pattern)).toList

namespace Primitive

/-- The cosine and sine of an angle in degrees.  They are exact at the quarters of a turn. -/
def direction (angle : UInt16) : Float32 × Float32 :=
  match angle.toNat % 360 with
  | 0 => (1.0, 0.0)
  | 90 => (0.0, 1.0)
  | 180 => (-1.0, 0.0)
  | 270 => (0.0, -1.0)
  | degrees =>
    let radians := Float32.ofNat degrees * (3.14159274 / 180.0)
    (radians.cos, radians.sin)

/-- The point of a circle at an angle, `arc_point`. -/
def onCircle (center : Point Float32) (radius : Float32) (angle : UInt16) : Point Float32 :=
  let (cos, sin) := direction angle
  center.translate (radius * cos) (radius * sin)

/-- The attributes of a box. -/
def boxAttributes (origin : Point Float32) (size : Size Float32) : List (String × String) :=
  [("x", plain origin.x), ("y", plain origin.y), ("width", plain size.width),
    ("height", plain size.height)]

/-- The attributes of a color that fills. -/
def fillAttributes (color : Color) : List (String × String) :=
  [("fill", Color.Notation.text color), ("fill-opacity", plain color.alpha)]

/-- **The SVG element of a mark,** `to_svg`.  An arc is a path that turns clockwise, an arrow head a
triangle, and a label is set in the middle of its point. -/
def toSvg : Primitive Float32 → Xml
  | .line start stop stroke =>
    .element "line"
      ([("x1", plain start.x), ("y1", plain start.y), ("x2", plain stop.x), ("y2", plain stop.y)] ++
        stroke.attributes) []
  | .arc origin diameter angle stroke =>
    let radius := diameter / 2.0
    let center := origin.translate radius radius
    let start := onCircle center radius angle
    let stop := onCircle center radius (angle + 90)
    let path := "M" ++ plain start.x ++ "," ++ plain start.y ++ " A" ++
      ",".intercalate [plain radius, plain radius, "0", "0", "1", plain stop.x, plain stop.y]
    .element "path" ([("d", path), ("fill", "none")] ++ stroke.attributes) []
  | .rect origin size radius stroke fill =>
    let round := if 0.0 < radius then [("rx", plain radius), ("ry", plain radius)] else []
    let fill := match fill with
      | some color => fillAttributes color
      | none => [("fill", "none")]
    .element "rect" (boxAttributes origin size ++ round ++ fill ++ stroke.attributes) []
  | .frame origin size stroke =>
    .element "rect" (boxAttributes origin size ++ [("fill", "none")] ++ stroke.attributes) []
  | .arrow tip direction size color =>
    let base := tip.x - direction.sign * size
    let half := size / 2.0
    let corner (x y : Float32) : String := plain x ++ "," ++ plain y
    let points := " ".intercalate
      [corner tip.x tip.y, corner base (tip.y - half), corner base (tip.y + half)]
    .element "polygon" (("points", points) :: fillAttributes color) []
  | .text content center font color =>
    .element "text"
      ([("x", plain center.x), ("y", plain center.y), ("text-anchor", "middle"),
        ("dominant-baseline", "central"), ("font-family", font.family),
        ("font-size", toString font.size.toNat)] ++ fillAttributes color)
      [.text "", .text content]

end Primitive

/-- The group of a layer, which tells the layer by its name. -/
def Layer.group (layer : Layer) (items : List Xml) : Xml :=
  .element "g" [("data-layer", layer.name)] items

/-- The groups of the layers in use. -/
def Layered.toSvg (l : Layered Xml) : List Xml :=
  l.groups.map fun (layer, items) => layer.group items

/-- Marks on their layers. -/
def Layered.ofPrimitives (marks : List (Primitive Float32)) : Layered Xml :=
  ⟨marks.map fun mark => (mark.layer, mark.toSvg)⟩

/-- **A document** of a size, `finish`: a background in a color, and marks.  The background is drawn
like anything else, on the lowest layer, and as large as the page. -/
def svgDocument (background : Color) (size : Size Float32) (marks : List (Primitive Float32)) : Xml :=
  let backdrop : Xml := .element "rect"
    [("x", "0"), ("y", "0"), ("width", plain size.width), ("height", plain size.height),
      ("fill", Color.Notation.text background)] []
  let layers := (Layered.ofPrimitives marks).add .background backdrop
  .element "svg"
    [("viewBox", " ".intercalate ["0", "0", plain size.width, plain size.height]),
      ("width", plain size.width), ("height", plain size.height),
      ("xmlns", "http://www.w3.org/2000/svg")] layers.toSvg

end Railroad
