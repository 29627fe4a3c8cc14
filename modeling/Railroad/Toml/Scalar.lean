/-
# TOML scalars

What is written as one word without quotes: truth values, numbers and dates.  Single underscores
may stand between the digits of a number.

A word is looked at as a whole, after it was cut off; so what is one word is settled by the
characters in it and not by what they mean (`splitWord`).  Of a date only that it is one is kept,
since no setting has a date for its value.
-/
import Railroad.Data
import Railroad.Number.Reader

namespace Railroad.Toml

/-! ## 1. Dates -/

namespace Date

/-- A number of a fixed count of digits. -/
def digits? (count : Nat) (s : List Char) : Option (Nat × List Char) :=
  let digits := s.take count
  if digits.length == count && digits.all Char.isDigit then some (Number.ofDigits digits, s.drop count)
  else none

/-- What follows a mark. -/
def after? (mark : Char) : List Char → Option (List Char)
  | c :: s => if c == mark then some s else none
  | [] => none

/-- How many days a month has. -/
def daysIn (year month : Nat) : Nat :=
  if month == 2 then
    if year % 4 == 0 && (year % 100 != 0 || year % 400 == 0) then 29 else 28
  else if month == 4 || month == 6 || month == 9 || month == 11 then 30
  else 31

/-- What follows a day. -/
def day? (s : List Char) : Option (List Char) := do
  let (year, s) ← digits? 4 s
  let (month, s) ← digits? 2 (← after? '-' s)
  let (day, s) ← digits? 2 (← after? '-' s)
  if 1 ≤ month && month ≤ 12 && 1 ≤ day && day ≤ daysIn year month then some s else none

/-- What follows a fraction of a second, if there is one. -/
def fraction? : List Char → Option (List Char)
  | '.' :: s => if (s.takeWhile Char.isDigit).isEmpty then none else some (s.dropWhile Char.isDigit)
  | s => some s

/-- What follows a time of day.  The seconds may be left out. -/
def time? (s : List Char) : Option (List Char) := do
  let (hour, s) ← digits? 2 s
  let (minute, s) ← digits? 2 (← after? ':' s)
  if 23 < hour || 59 < minute then none
  match s with
  | ':' :: s =>
    let (second, s) ← digits? 2 s
    if 60 < second then none else fraction? s
  | s => some s

/-- It is the distance of a time from that of Greenwich, or nothing. -/
def isZone : List Char → Bool
  | [] => true
  | ['z'] | ['Z'] => true
  | c :: s =>
    let zone? : Option Bool := do
      let (hours, s) ← digits? 2 s
      let (minutes, s) ← digits? 2 (← after? ':' s)
      return s.isEmpty && hours ≤ 23 && minutes ≤ 59
    (c == '+' || c == '-') && zone?.getD false

/-- **It is a date:** a day, a time, or a day with a time and perhaps a zone. -/
def isDate (s : List Char) : Bool :=
  match day? s with
  | some [] => true
  | some (c :: s) => (c == 'T' || c == 't' || c == ' ') && ((time? s).map isZone).getD false
  | none => time? s == some []

end Date

/-! ## 2. Numbers and truth values -/

/-- Digits without the underscores between them. -/
def ungrouped? (isDigit : Char → Bool) : List Char → Option (List Char)
  | [] => none
  | [c] => if isDigit c then some [c] else none
  | c :: '_' :: s => if isDigit c then (ungrouped? isDigit s).map (c :: ·) else none
  | c :: s => if isDigit c then (ungrouped? isDigit s).map (c :: ·) else none

/-- A sign, if there is one: whether it is a minus. -/
def splitSign : List Char → Bool × List Char
  | '-' :: s => (true, s)
  | '+' :: s => (false, s)
  | s => (false, s)

/-- What comes before a mark, and what comes behind it if there is one. -/
def splitAt (isMark : Char → Bool) (s : List Char) : List Char × Option (List Char) :=
  (s.takeWhile (!isMark ·), (s.dropWhile (!isMark ·)).tail?)

/-- A whole number.  It is too large if it does not fit into 128 bits, with a sign or without one. -/
def whole (negative : Bool) (n : Nat) : Data :=
  if negative then if n ≤ Number.twoTo 127 then .int (-n) else .overflow
  else if n < Number.twoTo 128 then .int n else .overflow

/-- A number to the base of two, eight or sixteen. -/
def based? (base : Nat) (digits : List Char) : Option Data := do
  return whole false (← Number.ofDigits? base (← ungrouped? (fun c => (Number.hexDigit? c).isSome) digits))

/-- An exponent: a sign and digits. -/
def exponent? (s : List Char) : Option Int := do
  let (negative, digits) := splitSign s
  let n : Int := Number.ofDigits (← ungrouped? Char.isDigit digits)
  return if negative then -n else n

/-- A decimal number without its sign.  It does not begin with a needless zero, and has digits on
both sides of its point; one with neither a point nor an exponent is whole. -/
def decimal? (negative : Bool) (s : List Char) : Option Data := do
  let (mantissa, exponent) := splitAt (fun c => c == 'e' || c == 'E') s
  let (units, fraction) := splitAt (· == '.') mantissa
  let units ← ungrouped? Char.isDigit units
  if units.head? == some '0' && 1 < units.length then none
  if fraction.isNone && exponent.isNone then return whole negative (Number.ofDigits units)
  let fraction ← (fraction.map (ungrouped? Char.isDigit)).getD (some [])
  let exponent ← (exponent.map exponent?).getD (some 0)
  let d : Number.Decimal := ⟨Number.ofDigits (units ++ fraction), exponent - fraction.length⟩
  return if d.toFloat.isInf then .overflow else .float (if negative then -d.toFloat else d.toFloat)

/-- **The value of a word:** a truth value, a date or a number. -/
def scalar? (word : List Char) : Option Data :=
  match String.ofList word with
  | "true" => some (.bool true)
  | "false" => some (.bool false)
  | _ =>
    if Date.isDate word then some .date else
    match word with
    | '0' :: 'x' :: digits => based? 16 digits
    | '0' :: 'o' :: digits => based? 8 digits
    | '0' :: 'b' :: digits => based? 2 digits
    | _ =>
      let (negative, unsigned) := splitSign word
      match String.ofList unsigned with
      | "inf" => some (.float (if negative then -1.0 / 0.0 else 1.0 / 0.0))
      | "nan" => some (.float (0.0 / 0.0))
      | _ => decimal? negative unsigned

end Railroad.Toml
