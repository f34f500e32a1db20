import QueryPlanner.Binary64.Shortest

/-!
# Writing a number

A layout fixes all that the shortest digits leave open: which magnitudes are written without an
exponent, how an exponent is written, and the words for what is no number.

* `Binary64.render` — the text of a number in a layout
-/

namespace QueryPlanner

namespace Binary64

/-- The decisions of a number format. -/
structure Layout where
  /-- Least power of ten of the first digit that is written without an exponent. -/
  leastPlain : Int
  /-- Power of ten of the first digit from which an exponent is written. -/
  firstScientific : Int
  /-- Whether an exponent that is not negative carries a plus sign. -/
  exponentPlus : Bool
  /-- Which of two equally near shortest decimals is written. -/
  tie : Tie
  notANumber : String
  infinity : String
  negativeInfinity : String

/-- A run of zeros. -/
def zeros (n : Nat) : String := String.ofList (List.replicate n '0')

/-- Digits with the decimal point after the first `point` of them; a number always shows at least
one digit on either side of the point. -/
def renderPlain (digits : List Char) (point : Int) : String :=
  if point ≤ 0 then "0." ++ zeros (-point).toNat ++ String.ofList digits
  else
    let whole := point.toNat
    if digits.length ≤ whole then String.ofList digits ++ zeros (whole - digits.length) ++ ".0"
    else String.ofList (digits.take whole) ++ "." ++ String.ofList (digits.drop whole)

/-- One digit, the others after a point if there are any, and the power of ten of the first. -/
def renderScientific (plus : Bool) (digits : List Char) (exponent : Int) : String :=
  let mantissa := match digits with
    | first :: rest@(_ :: _) => String.ofList (first :: '.' :: rest)
    | short => String.ofList short
  mantissa ++ "e" ++ (if plus && 0 ≤ exponent then "+" else "") ++ toString exponent

/-- The text of the magnitude of a finite number other than zero. -/
def renderMagnitude (layout : Layout) (x : Binary64) : String :=
  let decimal := x.shortest layout.tie
  let digits := Nat.toDigits 10 decimal.digits
  let exponent := decimal.exponent + digits.length - 1
  if layout.leastPlain ≤ exponent && exponent < layout.firstScientific then
    renderPlain digits (exponent + 1)
  else renderScientific layout.exponentPlus digits exponent

/-- The text of a number: its shortest digits in the given layout. -/
def render (layout : Layout) (x : Binary64) : String :=
  if x.isNaN then layout.notANumber
  else if x.isInfinite then
    if x.isNegative then layout.negativeInfinity else layout.infinity
  else
    let sign := if x.isNegative then "-" else ""
    if x.isZero then sign ++ "0.0" else sign ++ renderMagnitude layout x

end Binary64

end QueryPlanner
