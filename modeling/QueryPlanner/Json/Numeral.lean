import QueryPlanner.Value.Basic
import QueryPlanner.Text.Numeral
import QueryPlanner.Text.Reader

/-!
# Numbers of JSON

A number without point and exponent is an integer if 64 bits with a sign hold it.  Every other
number is a significand of 64 bits and a power of ten: digits that the significand has no room for
count only for their place, and the significand is rounded before it is scaled.

* `Json.scale` — a floating point number times a power of ten
* `Json.readNumber` — a number off the front of a text
-/

namespace QueryPlanner

namespace Json

/-- The least number that a significand does not hold. -/
def significandLimit : Nat := Nat.pow 2 64

/-- Digits appended to a significand as long as it holds them: the significand, the number of
digits taken, and the rest of the text. -/
def takeDigits (significand : Nat) : List Char → Nat × Nat × List Char
  | [] => (significand, 0, [])
  | c :: cs =>
    let next := 10 * significand + (c.toNat - '0'.toNat)
    if c.isDigit && next < significandLimit then
      let (total, count, rest) := takeDigits next cs
      (total, count + 1, rest)
    else (significand, 0, c :: cs)

/-- Digits at the front of a text: how many there are, and what follows. -/
def skipDigits (cs : List Char) : Nat × List Char :=
  ((cs.takeWhile Char.isDigit).length, cs.dropWhile Char.isDigit)

/-- The largest power of ten that is used in a single step. -/
def greatestStep : Nat := 308

/-- Divide by a power of ten, in steps that stay within the range of the floating point numbers. -/
def scaleDown (x : Binary64) (exponent : Nat) : Binary64 :=
  if exponent ≤ greatestStep then x.div (.ofDecimal false 1 exponent)
  else if x.isZero then x
  else scaleDown (x.div (.ofDecimal false 1 greatestStep)) (exponent - greatestStep)
termination_by exponent
decreasing_by simp only [greatestStep] at *; omega

/-- Multiply by a power of ten; nothing if the product is out of range. -/
def scale (x : Binary64) : Int → Option Binary64
  | .ofNat exponent =>
    if x.isZero then some x
    else if greatestStep < exponent then none
    else
      let product := x.mul (.ofDecimal false 1 exponent)
      if product.isInfinite then none else some product
  | .negSucc n => some (scaleDown x (n + 1))

/-- An exponent with its mark, or none: its value and the rest of the text.  Digits must follow the
mark and its sign. -/
def readExponent : Text.Reader Int
  | [] => some (0, [])
  | mark :: cs =>
    if mark = 'e' || mark = 'E' then
      let (negative, cs) := Text.splitSign cs
      let digits := cs.takeWhile Char.isDigit
      if digits.isEmpty then none
      else
        let size := Text.ofDigits digits
        some (if negative then -(size : Int) else size, cs.dropWhile Char.isDigit)
    else some (0, mark :: cs)

/-- The floating point number of a sign, a significand and a power of ten. -/
def ofParts (negative : Bool) (significand : Nat) (exponent : Int) : Option Value := do
  let x ← scale (.ofInt significand) exponent
  some (.float (if negative then x.neg else x))

/-- An integer where 64 bits hold it, and a floating point number otherwise; minus zero is one of
the latter. -/
def ofInteger (negative : Bool) (significand : Nat) : Value :=
  let i : Int := if negative then -(significand : Int) else significand
  if negative && significand == 0 then .float Binary64.zero.neg
  else if Int64Range i then .int i
  else .float (.ofInt i)

/-- A number without its sign.  It starts with a digit, and with zero only if no digit follows. -/
def readMagnitude (negative : Bool) (cs : List Char) : Option (Value × List Char) := do
  let (significand, count, afterTaken) := takeDigits 0 cs
  if count = 0 then none
  else if cs.head? == some '0' && 1 < (cs.takeWhile Char.isDigit).length then none
  else
    let (dropped, rest) := skipDigits afterTaken
    match rest with
    | '.' :: fraction =>
      let (significand, places, afterPlaces) := takeDigits significand fraction
      let (ignored, rest) := skipDigits afterPlaces
      if places + ignored = 0 then none
      else
        let (exponent, rest) ← readExponent rest
        let value ← ofParts negative significand (dropped - places + exponent)
        some (value, rest)
    | _ =>
      let hasExponent := rest.head? == some 'e' || rest.head? == some 'E'
      if dropped = 0 && !hasExponent then some (ofInteger negative significand, rest)
      else
        let (exponent, rest) ← readExponent rest
        let value ← ofParts negative significand (dropped + exponent)
        some (value, rest)

/-- A number off the front of a text. -/
def readNumber : Text.Reader Value
  | '-' :: cs => readMagnitude true cs
  | cs => readMagnitude false cs

end Json

end QueryPlanner
