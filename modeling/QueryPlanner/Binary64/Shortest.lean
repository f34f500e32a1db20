import QueryPlanner.Binary64.Basic

/-!
# The shortest decimal that reads back

A finite number owns the interval of reals that round to it.  The shortest decimal is the point of
the coarsest decimal grid that lies in this interval, the nearer one if two neighbours do.

* `RoundingInterval.contains` — membership of a decimal in that interval, in exact arithmetic
* `Binary64.shortest` — the search from the coarsest grid down
-/

namespace QueryPlanner

/-- The positive decimal number `digits * 10 ^ exponent`. -/
structure Decimal where
  digits : Nat
  exponent : Int
  deriving DecidableEq, Repr

/-- Where the nearer of two equally near decimals is sought. -/
inductive Tie where
  | up
  | even
  deriving DecidableEq, Repr

/-- The reals that round to a positive number, counted in quarters of the last place
`2 ^ power`: from `low` to `high` around `4 * significand`. -/
structure RoundingInterval where
  low : Nat
  middle : Nat
  high : Nat
  /-- Power of two of one quarter. -/
  quarter : Int
  /-- Whether the two ends belong to the interval. -/
  closed : Bool

namespace RoundingInterval

/-- One step of the grid `10 ^ exponent`, in the unit in which a quarter is `quarterSize`. -/
def gridSize (i : RoundingInterval) (exponent : Int) : Nat :=
  Nat.pow 10 exponent.toNat * Nat.pow 2 (-i.quarter).toNat

/-- One quarter of the last place, in the unit in which a grid step is `gridSize`. -/
def quarterSize (i : RoundingInterval) (exponent : Int) : Nat :=
  Nat.pow 2 i.quarter.toNat * Nat.pow 10 (-exponent).toNat

/-- Whether `digits * 10 ^ exponent` rounds to the number. -/
def contains (i : RoundingInterval) (digits : Nat) (exponent : Int) : Bool :=
  let point := digits * i.gridSize exponent
  let low := i.low * i.quarterSize exponent
  let high := i.high * i.quarterSize exponent
  if i.closed then low ≤ point && point ≤ high else low < point && point < high

/-- Of the two grid neighbours of the number, the one that rounds to it; the nearer if both do. -/
def neighbour? (i : RoundingInterval) (tie : Tie) (exponent : Int) : Option Nat :=
  let size := i.gridSize exponent
  let value := i.middle * i.quarterSize exponent
  let below := value / size
  let excess := 2 * (value % size)
  let above := below + 1
  match i.contains below exponent, i.contains above exponent with
  | true, true =>
    if excess < size then some below
    else if size < excess then some above
    else match tie with
      | .up => some above
      | .even => some (if below % 2 = 0 then below else above)
  | true, false => some below
  | false, true => some above
  | false, false => none

/-- The first hit on the grids `10 ^ exponent`, `10 ^ (exponent - 1)`, … -/
def search (i : RoundingInterval) (tie : Tie) : Nat → Int → Decimal
  | 0, exponent => ⟨i.middle * i.quarterSize exponent / i.gridSize exponent, exponent⟩
  | steps + 1, exponent =>
    match i.neighbour? tie exponent with
    | some digits => ⟨digits, exponent⟩
    | none => i.search tie steps (exponent - 1)

end RoundingInterval

namespace Binary64

/-- The interval of a positive finite number.  Below a power of two the numbers lie twice as
dense, so there the lower half is half as wide. -/
def roundingInterval (x : Binary64) : RoundingInterval :=
  let narrow := x.magnitude % fractionSize = 0 ∧ 1 < x.exponentField
  { low := 4 * x.significand - (if narrow then 1 else 2)
    middle := 4 * x.significand
    high := 4 * x.significand + 2
    quarter := x.power - 2
    closed := x.significand % 2 = 0 }

/-- A grid exponent whose step is larger than the number, at most two powers too large. -/
def coarsestGrid (x : Binary64) : Int :=
  ((Nat.log2 x.significand : Int) + x.power + 1) * 30103 / 100000 + 1

/-- The shortest decimal that reads back as the magnitude of a finite number other than zero.
Seventeen digits always suffice, so twenty grids do. -/
def shortest (x : Binary64) (tie : Tie) : Decimal :=
  x.roundingInterval.search tie 20 x.coarsestGrid

end Binary64

end QueryPlanner
