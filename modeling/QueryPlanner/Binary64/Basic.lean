/-!
# Binary floating point numbers of 64 bits

A number is its word: sign, eleven bits of exponent, fifty-two of fraction.  Every operation goes
through exact natural arithmetic and one rounding step, so nothing here depends on the floating
point unit and all of it can be reasoned about.

* `Binary64.significand`, `Binary64.power` — a finite word stands for `significand * 2 ^ power`
* `Binary64.ofRatio` — the word nearest to a quotient of naturals, ties to the even neighbour
* `Binary64.ofDecimal` — the word nearest to `digits * 10 ^ exponent`
* `Binary64.mul`, `Binary64.div` — rounded once from the exact product and quotient
-/

namespace QueryPlanner

/-- A binary floating point number, held as its 64-bit word. -/
structure Binary64 where
  bits : UInt64
  deriving DecidableEq, Repr, Inhabited

namespace Binary64

/-- The number of fraction values below one step of the exponent. -/
def fractionSize : Nat := Nat.pow 2 52

/-- The magnitude word of infinity: all exponent bits set. -/
def infinityMagnitude : Nat := 2047 * fractionSize

/-- The weight of the sign bit. -/
def signWeight : Nat := Nat.pow 2 63

/-- Put a sign on a magnitude word. -/
def ofMagnitude (negative : Bool) (magnitude : Nat) : Binary64 :=
  ⟨UInt64.ofNat (if negative then signWeight + magnitude else magnitude)⟩

/-- The word without its sign bit. -/
def magnitude (x : Binary64) : Nat := x.bits.toNat % signWeight

/-- The sign bit; zero and not-a-number carry one as well. -/
def isNegative (x : Binary64) : Bool := signWeight ≤ x.bits.toNat

/-- Not-a-number: all exponent bits set and a fraction other than zero. -/
def isNaN (x : Binary64) : Bool := infinityMagnitude < x.magnitude

/-- Either infinity. -/
def isInfinite (x : Binary64) : Bool := x.magnitude = infinityMagnitude

/-- Either zero. -/
def isZero (x : Binary64) : Bool := x.magnitude = 0

/-- The eleven exponent bits. -/
def exponentField (x : Binary64) : Nat := x.magnitude / fractionSize

/-- The integer factor of a finite number. -/
def significand (x : Binary64) : Nat :=
  if x.exponentField = 0 then x.magnitude
  else fractionSize + x.magnitude % fractionSize

/-- The power of two that the integer factor of a finite number is scaled by. -/
def power (x : Binary64) : Int :=
  if x.exponentField = 0 then -1074 else (x.exponentField : Int) - 1075

/-- Positive infinity. -/
def infinity : Binary64 := ofMagnitude false infinityMagnitude

/-- The quiet not-a-number. -/
def nan : Binary64 := ofMagnitude false (infinityMagnitude + fractionSize / 2)

/-- Positive zero. -/
def zero : Binary64 := ofMagnitude false 0

/-- The other sign, also of zero and not-a-number. -/
def neg (x : Binary64) : Binary64 := ofMagnitude (!x.isNegative) x.magnitude

/-- The natural number nearest to `num / den`, a half going to the even neighbour. -/
def roundHalfEven (num den : Nat) : Nat :=
  let quotient := num / den
  let rest := 2 * (num % den)
  if rest < den ∨ (rest = den ∧ quotient % 2 = 0) then quotient else quotient + 1

/-- The power of two of the last place in which the quotient `num / den` of positive numbers is
rounded: fifty-three digits are kept, and none below `2 ^ -1074`. -/
def lastPlace (num den : Nat) : Int :=
  let estimate : Int := (Nat.log2 num : Int) - (Nat.log2 den : Int) - 52
  let scaledNum := num * Nat.pow 2 (-estimate).toNat
  let scaledDen := den * Nat.pow 2 estimate.toNat
  let place := if scaledNum < scaledDen * fractionSize then estimate - 1 else estimate
  max place (-1074)

/-- The magnitude word nearest to `num / den`, a half going to the even neighbour.  A rounding
that carries out of the significand raises the exponent by itself, since the word is the sum. -/
def magnitudeOfRatio (num den : Nat) : Nat :=
  if num = 0 then 0
  else
    let place := lastPlace num den
    let rounded := roundHalfEven (num * Nat.pow 2 (-place).toNat) (den * Nat.pow 2 place.toNat)
    min ((place + 1074).toNat * fractionSize + rounded) infinityMagnitude

/-- The number nearest to `num / den` with the given sign. -/
def ofRatio (negative : Bool) (num den : Nat) : Binary64 :=
  ofMagnitude negative (magnitudeOfRatio num den)

/-- The number of decimal digits of a natural number; zero has none. -/
def digitCount (n : Nat) : Nat := if n = 0 then 0 else (Nat.toDigits 10 n).length

/-- The number nearest to `digits * 10 ^ exponent`.  Values from `10 ^ 310` on are infinite and
values below `10 ^ -330` are zero whatever their digits, so huge exponents cost nothing. -/
def ofDecimal (negative : Bool) (digits : Nat) (exponent : Int) : Binary64 :=
  let top := (digitCount digits : Int) + exponent
  if digits = 0 ∨ top < -330 then ofMagnitude negative 0
  else if 310 < top then ofMagnitude negative infinityMagnitude
  else ofRatio negative (digits * Nat.pow 10 exponent.toNat) (Nat.pow 10 (-exponent).toNat)

/-- The number nearest to an integer. -/
def ofInt (i : Int) : Binary64 := ofRatio (i < 0) i.natAbs 1

/-- The product of two finite numbers, rounded once. -/
def mul (x y : Binary64) : Binary64 :=
  let place := x.power + y.power
  ofRatio (x.isNegative != y.isNegative)
    (x.significand * y.significand * Nat.pow 2 place.toNat) (Nat.pow 2 (-place).toNat)

/-- The quotient of two finite numbers, the second not zero, rounded once. -/
def div (x y : Binary64) : Binary64 :=
  let place := x.power - y.power
  ofRatio (x.isNegative != y.isNegative)
    (x.significand * Nat.pow 2 place.toNat) (y.significand * Nat.pow 2 (-place).toNat)

end Binary64

end QueryPlanner
