/-
# Reading a color

This is the notation of style sheets, which settings give their colors in.

A color is read from CSS text: a name, hexadecimal digits after `#`, or a function such as
`rgb(255 0 0 / 50%)`.  White space around the text is dropped, and nothing may follow it.

The reader works on the characters that are left.  Blanks and comments may stand between the
parts of a function, but not between the function's name and its parenthesis, nor inside a
number.  Numbers are read and scaled in 64 bits and kept in 32.

Most of the functions have one of two shapes: components with commas between all or none of them
(`listed`), or with nothing between them (`spaced`).  Some components are brought into a range and
others kept as they are, and percentages mean something else in each space; so a component is given
by what a number and a percentage are multiplied with (`component`).

That no component comes out as a value that is no number is proved in
`Railroad.Proofs.Color.Identity`.  It holds because nothing is divided by what is read, and the
factors are finite.
-/
import Railroad.Color.Basic
import Railroad.Color.Name
import Railroad.Number.Reader
import Railroad.Text.Character

namespace Railroad.Color

/-- Why a text is not a color.  The first fault from the left is reported, and nothing is said of
where it is. -/
inductive Malformed where
  | unknownForm | unknownName | noArguments | unknownComponent | unknownAngle | unknownAngleUnit
  | noSpace | unknownSpace | noComma | unclosed | hexDigits | trailing
deriving Repr, DecidableEq

/-- The wording of a fault. -/
def Malformed.message : Malformed → String
  | .unknownForm => "unknown color syntax"
  | .unknownName => "unknown color identifier"
  | .noArguments => "expected arguments"
  | .unknownComponent => "unknown color component"
  | .unknownAngle => "unknown angle"
  | .unknownAngleUnit => "unknown angle dimension"
  | .noSpace => "expected color space identifier"
  | .unknownSpace => "unknown color space"
  | .noComma => "expected comma"
  | .unclosed => "expected closing parenthesis"
  | .hexDigits => "wrong number of hex digits"
  | .trailing => "expected end of string"

namespace Reader

/-! ## 1. Blanks, words and numbers -/

/-- Blank inside a color. -/
def isGap (c : Char) : Bool :=
  c == ' ' || c == '\t' || c == '\n' || c == '\r'

/-- What follows the end of a comment. -/
def afterComment? : List Char → Option (List Char)
  | [] => none
  | '*' :: '/' :: rest => some rest
  | _ :: rest => afterComment? rest

theorem afterComment?_length {s rest : List Char} (h : afterComment? s = some rest) :
    rest.length < s.length := by
  induction s using afterComment?.induct with
  | case1 => simp [afterComment?] at h
  | case2 r => simp only [afterComment?, Option.some.injEq] at h; simp only [← h, List.length_cons]; omega
  | case3 c r hr ih =>
    rw [afterComment?] at h
    · have := ih h; simp only [List.length_cons]; omega
    · exact hr

/-- Drops blanks and closed comments.  A comment that is not closed is none, and stays. -/
def skipGaps : List Char → List Char
  | [] => []
  | '/' :: '*' :: rest =>
    match _h : afterComment? rest with
    | some after => skipGaps after
    | none => '/' :: '*' :: rest
  | c :: rest => if isGap c then skipGaps rest else c :: rest
termination_by s => s.length
decreasing_by
  · have := afterComment?_length _h; simp only [List.length_cons]; omega
  · simp

/-- Drops closed comments alone. -/
def skipComments : List Char → List Char
  | '/' :: '*' :: rest =>
    match _h : afterComment? rest with
    | some after => skipComments after
    | none => '/' :: '*' :: rest
  | s => s
termination_by s => s.length
decreasing_by
  have := afterComment?_length _h
  simp only [List.length_cons]
  omega

/-- A reading step: the characters left, or why there is no color. -/
abbrev Step := StateT (List Char) (Except Malformed)

/-- Runs a scanner on the characters left. -/
def scan {α : Type} (f : List Char → α × List Char) : Step α :=
  modifyGet f

def gaps : Step Unit := modify skipGaps

/-- Takes `c` if it comes next at once. -/
def takeNext (c : Char) : Step Bool :=
  scan fun
    | [] => (false, [])
    | d :: rest => if c == d then (true, rest) else (false, d :: rest)

/-- Takes `c` if it comes next or behind closed comments.  A comment that is not closed hides all
that follows, and its first character is no separator. -/
def take (c : Char) : Step Bool :=
  scan fun s =>
    match skipComments s with
    | [] => (false, [])
    | '/' :: '*' :: rest => (false, '/' :: '*' :: rest)
    | d :: rest => if c == d then (true, rest) else (false, d :: rest)

/-- Takes `c` or fails. -/
def demand (c : Char) (fault : Malformed) : Step Unit := do
  unless ← take c do throw fault

/-- A letter of a word. -/
def isWordStart (c : Char) : Bool := c.isAlpha || c == '_'

/-- The first and the second letter of a word decide whether it is one: a digit may not be
first, nor second after `-`, and `-` alone or doubled starts none. -/
def word? : Step (Option String) :=
  scan fun s =>
    let isInner (c : Char) : Bool := isWordStart c || c == '-' || c.isDigit
    let starts : Bool :=
      match s with
      | '-' :: c :: _ => isWordStart c
      | c :: _ => isWordStart c
      | [] => false
    if starts then (some (String.ofList (s.takeWhile isInner)), s.dropWhile isInner) else (none, s)

/-- A sign, if there is one: whether it is a minus. -/
def splitSign : List Char → Bool × List Char
  | '-' :: rest => (true, rest)
  | '+' :: rest => (false, rest)
  | s => (false, s)

/-- The fraction of a number: the digits after a point, if at least one follows it. -/
def splitFraction : List Char → List Char × List Char
  | '.' :: rest =>
    match rest.takeWhile Char.isDigit with
    | [] => ([], '.' :: rest)
    | digits => (digits, rest.dropWhile Char.isDigit)
  | s => ([], s)

/-- The exponent of a number, if `e` and at least one digit follow. -/
def splitExponent : List Char → Int × List Char
  | c :: rest =>
    if c == 'e' || c == 'E' then
      let (negative, unsigned) := splitSign rest
      match unsigned.takeWhile Char.isDigit with
      | [] => (0, c :: rest)
      | digits =>
        let n : Int := Number.ofDigits digits
        (if negative then -n else n, unsigned.dropWhile Char.isDigit)
    else (0, c :: rest)
  | [] => (0, [])

/-- A number: a sign, digits with a fraction, an exponent.  There must be a digit, before the
point or behind it. -/
def number? : Step (Option Float) :=
  scan fun s =>
    let (negative, unsigned) := splitSign s
    let whole := unsigned.takeWhile Char.isDigit
    let (fraction, afterFraction) := splitFraction (unsigned.dropWhile Char.isDigit)
    if whole.isEmpty && fraction.isEmpty then (none, s) else
    let (exponent, rest) := splitExponent afterFraction
    let x := (Number.Decimal.mk (Number.ofDigits (whole ++ fraction)) (exponent - fraction.length)).toFloat
    (some (if negative then -x else x), rest)

/-- What may stand for a component or an angle: a number, bare or with a unit right behind it, or
a word, of which only `none` is ever good. -/
inductive Value where
  | number (x : Float)
  | percent (x : Float)
  | measure (x : Float) (unit : String)
  | word (w : String)

def value? : Step (Option Value) := do
  match ← number? with
  | some x =>
    if ← takeNext '%' then return some (.percent x)
    match ← word? with
    | some unit => return some (.measure x unit)
    | none => return some (.number x)
  | none => return (← word?).map .word

/-! ## 2. Components -/

/-- A component: a number times `unit`, a percentage times `percent`, or `none`. -/
def component (unit percent : Float) : Step (Option Float) := do
  gaps
  match ← value? with
  | some (.number x) => return some (x * unit)
  | some (.percent x) => return some (x * percent)
  | some (.word w) => if w.toLower == "none" then return none else throw .unknownComponent
  | _ => throw .unknownComponent

/-- An angle in degrees, or `none`. -/
def angle : Step (Option Float) := do
  gaps
  match ← value? with
  | some (.number x) => return some x
  | some (.word w) => if w.toLower == "none" then return none else throw .unknownAngle
  | some (.measure x unit) =>
    match unit.toLower with
    | "deg" => return some x
    | "rad" => return some (x * (180.0 / 3.141592653589793))
    | "grad" => return some (x * 0.9)
    | "turn" => return some (x * 360.0)
    | _ => throw .unknownAngleUnit
  | _ => throw .unknownAngle

/-- Brings a component into a range; what compares as neither below nor above is kept. -/
def clamp (low high : Float) (x : Option Float) : Option Float :=
  x.map fun x =>
    let x := if x < low then low else x
    if high < x then high else x

/-- Brings a component up to zero.  Whatever is not above zero becomes zero without a sign. -/
def raise (x : Option Float) : Option Float := x.map fun x => if 0.0 < x then x else 0.0

/-- The opacity after `separator`, or full opacity. -/
def transparency (separator : Char) : Step (Option Float) := do
  gaps
  if ← take separator then return clamp 0.0 1.0 (← component 1.0 0.01)
  return some 1.0

/-- A color of these components, up to its closing parenthesis. -/
def finish (space : Space) (mark : Mark) (first second third : Option Float)
    (separator : Char) : Step Color := do
  let alpha ← transparency separator
  gaps
  demand ')' .unclosed
  let keep := Option.map Number.narrow
  return { space, mark, first := keep first, second := keep second, third := keep third
           opacity := keep alpha }

/-- Three components with commas between all of them or between none, as the first shows.  No
blanks stand before the first comma unless they are read by `lead`. -/
def listed (space : Space) (mark : Mark) (lead : Step Unit)
    (first second third : Step (Option Float)) : Step Color := do
  let x ← first
  lead
  let commas ← take ','
  let y ← second
  gaps
  if commas then demand ',' .noComma
  let z ← third
  finish space mark x y z (if commas then ',' else '/')

/-- Three components with nothing between them. -/
def spaced (space : Space) (first second third : Step (Option Float)) : Step Color := do
  let x ← first
  let y ← second
  let z ← third
  finish space .components x y z '/'

/-! ## 3. Functions and whole colors -/

/-- The spaces that `color()` knows. -/
def spaceNamed? : String → Option Space
  | "srgb" => some .srgb
  | "srgb-linear" => some .srgbLinear
  | "display-p3" => some .displayP3
  | "a98-rgb" => some .a98Rgb
  | "prophoto-rgb" => some .prophotoRgb
  | "rec2020" => some .rec2020
  | "xyz-d50" => some .xyzD50
  | "xyz" | "xyz-d65" => some .xyzD65
  | _ => none

/-- Lightness and two further axes. -/
def axes (space : Space) (top axisPercent : Float) : Step Color :=
  spaced space (clamp 0.0 top <$> component 1.0 (0.01 * top)) (component 1.0 axisPercent)
    (component 1.0 axisPercent)

/-- Lightness, chroma and hue. -/
def polar (space : Space) (top axisPercent : Float) : Step Color :=
  spaced space (clamp 0.0 top <$> component 1.0 (0.01 * top))
    (raise <$> component 1.0 axisPercent) angle

/-- What stands in the parentheses of a function. -/
def arguments? : String → Option (Step Color)
  | "rgb" | "rgba" =>
    let byte := clamp 0.0 1.0 <$> component (1.0 / 255.0) 0.01
    some (listed .srgb .bytes gaps byte byte byte)
  | "lab" => some (axes .lab 100.0 1.25)
  | "lch" => some (polar .lch 100.0 1.25)
  | "oklab" => some (axes .oklab 1.0 0.004)
  | "oklch" => some (polar .oklch 1.0 0.004)
  | "hsl" | "hsla" =>
    some (listed .hsl .components (pure ()) angle (component 1.0 1.0) (component 1.0 1.0))
  | "hwb" => some (spaced .hwb angle (component 1.0 1.0) (component 1.0 1.0))
  | "color" => some do
    gaps
    let some name ← word? | throw .noSpace
    let some space := spaceNamed? name.toLower | throw .unknownSpace
    spaced space (component 1.0 0.01) (component 1.0 0.01) (component 1.0 0.01)
  | _ => none

/-- The hexadecimal digits that come next, at most `limit` of them. -/
def hexDigits : Nat → List Char → List Nat × List Char
  | limit + 1, c :: rest =>
    match Number.hexDigit? c with
    | some d => let (digits, after) := hexDigits limit rest; (d :: digits, after)
    | none => ([], c :: rest)
  | _, s => ([], s)

/-- Digits after `#`: one or two for each of three or four components. -/
def hex : Step Color := do
  match ← scan (hexDigits 8) with
  | [r, g, b] => return ofBytes (17 * r) (17 * g) (17 * b) 255 .bytes
  | [r, g, b, a] => return ofBytes (17 * r) (17 * g) (17 * b) (17 * a) .bytes
  | [r, r', g, g', b, b'] => return ofBytes (16 * r + r') (16 * g + g') (16 * b + b') 255 .bytes
  | [r, r', g, g', b, b', a, a'] =>
    return ofBytes (16 * r + r') (16 * g + g') (16 * b + b') (16 * a + a') .bytes
  | _ => throw .hexDigits

/-- A color at the start of the text. -/
def leading : Step Color := do
  if ← takeNext '#' then return ← hex
  let some word ← word? | throw .unknownForm
  let name := word.toLower
  match byName? name with
  | some (r, g, b) => return ofBytes r g b (if name == "transparent" then 0 else 255) (.name name)
  | none =>
    let some arguments := arguments? name | throw .unknownName
    unless ← takeNext '(' do throw .noArguments
    arguments

/-- The text without the white space around it. -/
def trim (s : List Char) : List Char :=
  ((s.dropWhile Text.isWhiteSpace).reverse.dropWhile Text.isWhiteSpace).reverse

end Reader

/-- **Reads a color.**  The whole text must be one, but for the white space around it.  What is
wrong is told by the first thing that does not fit. -/
def read (s : String) : Except Malformed Color := do
  let (color, rest) ← Reader.leading.run (Reader.trim s.toList)
  if rest.isEmpty then return color else throw .trailing

end Railroad.Color
