import QueryPlanner.Binary64.Basic

/-!
# Numbers written in a text

A number is the whole text: an optional sign and ASCII digits, with no blanks, separators or other
bases.

* `Text.readInt64` — integers of 64 bits
* `Text.readFloat` — decimals with point and exponent, and the words for infinity and not-a-number
-/

namespace QueryPlanner

/-- The integers of 64 bits. -/
def Int64Range (i : Int) : Prop := -(Nat.pow 2 63 : Int) ≤ i ∧ i < (Nat.pow 2 63 : Int)

instance (i : Int) : Decidable (Int64Range i) := inferInstanceAs (Decidable (_ ∧ _))

namespace Text

/-- The number that a list of digits writes in base ten. -/
def ofDigits (cs : List Char) : Nat := cs.foldl (fun n c => 10 * n + (c.toNat - 48)) 0

/-- An optional sign in front: whether it is a minus, and the rest. -/
def splitSign : List Char → Bool × List Char
  | '-' :: cs => (true, cs)
  | '+' :: cs => (false, cs)
  | cs => (false, cs)

/-- A sign and at least one digit, within 64 bits. -/
def readInt64 (s : String) : Option Int :=
  let (negative, digits) := splitSign s.toList
  if digits.isEmpty || !digits.all Char.isDigit then none
  else
    let i : Int := if negative then -(ofDigits digits : Int) else ofDigits digits
    if Int64Range i then some i else none

/-- An exponent mark with its signed digits up to the end of the text, or no exponent. -/
def readExponent : List Char → Option Int
  | [] => some 0
  | mark :: cs =>
    let (negative, digits) := splitSign cs
    if (mark = 'e' || mark = 'E') && !digits.isEmpty && digits.all Char.isDigit then
      some (if negative then -(ofDigits digits : Int) else ofDigits digits)
    else none

/-- Digits with an optional point among, before or after them, and an optional exponent: the
digits without the point and the power of ten of the last one. -/
def readDecimal (cs : List Char) : Option (Nat × Int) :=
  let whole := cs.takeWhile Char.isDigit
  let afterWhole := cs.dropWhile Char.isDigit
  let (fraction, rest) := match afterWhole with
    | '.' :: more => (more.takeWhile Char.isDigit, more.dropWhile Char.isDigit)
    | more => ([], more)
  if whole.isEmpty && fraction.isEmpty then none
  else (readExponent rest).map fun exponent =>
    (ofDigits (whole ++ fraction), exponent - fraction.length)

/-- A floating point number, rounded to the nearest one; letters count in either case. -/
def readFloat (s : String) : Option Binary64 :=
  let (negative, cs) := splitSign s.toList
  let word := String.ofList (cs.map Char.toLower)
  if word = "inf" || word = "infinity" then
    some (Binary64.ofMagnitude negative Binary64.infinity.magnitude)
  else if word = "nan" then some (Binary64.ofMagnitude negative Binary64.nan.magnitude)
  else (readDecimal cs).map fun (digits, exponent) => Binary64.ofDecimal negative digits exponent

end Text

end QueryPlanner
