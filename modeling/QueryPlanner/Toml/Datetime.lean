import QueryPlanner.Text.Numeral

/-!
# Dates and times

A date, a time of day or both, the latter perhaps with an offset from universal time.

* `Datetime.read` — from a text; a blank may stand in place of the letter between date and time
* `Datetime.render` — the normal form: nanoseconds without trailing zeros, `T` and `Z` in upper case
-/

namespace QueryPlanner

/-- A day of a month of a year. -/
structure Date where
  year : Nat
  month : Nat
  day : Nat

/-- A time of day; a minute may have a leap second. -/
structure TimeOfDay where
  hour : Nat
  minute : Nat
  second : Nat
  nanosecond : Nat

/-- A distance from universal time. -/
inductive TimeOffset where
  | universal
  | minutes (count : Int)

/-- A date, a time or both. -/
inductive Datetime where
  | date (d : Date)
  | time (t : TimeOfDay)
  | both (d : Date) (t : TimeOfDay) (offset : Option TimeOffset)

/-- The number of days of a month. -/
def Date.daysOf (year month : Nat) : Nat :=
  if month = 2 then
    if year % 4 = 0 ∧ (year % 100 ≠ 0 ∨ year % 400 = 0) then 29 else 28
  else if [4, 6, 9, 11].contains month then 30
  else 31

namespace Datetime

/-- The number that exactly `count` digits write at the front of a text, if it is in a range. -/
def readDigits (count low high : Nat) (cs : List Char) : Option (Nat × List Char) :=
  let digits := cs.take count
  let n := Text.ofDigits digits
  if digits.length = count ∧ digits.all Char.isDigit ∧ low ≤ n ∧ n ≤ high then
    some (n, cs.drop count)
  else none

/-- The rest after one expected character. -/
def expect (c : Char) : List Char → Option (List Char)
  | d :: cs => if d = c then some cs else none
  | [] => none

/-- Year, month and day. -/
def readDate (cs : List Char) : Option (Date × List Char) := do
  let (year, cs) ← readDigits 4 0 9999 cs
  let (month, cs) ← readDigits 2 1 12 (← expect '-' cs)
  let (day, cs) ← readDigits 2 1 (Date.daysOf year month) (← expect '-' cs)
  some (⟨year, month, day⟩, cs)

/-- The nanoseconds after the point; further digits do not count. -/
def nanosecondsOf (digits : List Char) : Nat :=
  Text.ofDigits (digits.take 9) * Nat.pow 10 (9 - digits.length)

/-- Hour and minute, perhaps a second, and perhaps a fraction of it. -/
def readTime (cs : List Char) : Option (TimeOfDay × List Char) := do
  let (hour, cs) ← readDigits 2 0 23 cs
  let (minute, cs) ← readDigits 2 0 59 (← expect ':' cs)
  match cs with
  | ':' :: cs =>
    let (second, cs) ← readDigits 2 0 60 cs
    match cs with
    | '.' :: cs =>
      let digits := cs.takeWhile Char.isDigit
      if digits.isEmpty then none
      else some (⟨hour, minute, second, nanosecondsOf digits⟩, cs.dropWhile Char.isDigit)
    | cs => some (⟨hour, minute, second, 0⟩, cs)
  | cs => some (⟨hour, minute, 0, 0⟩, cs)

/-- The offset at the end of a text; it is less than a day. -/
def readOffset : List Char → Option (Option TimeOffset)
  | [] => some none
  | ['Z'] | ['z'] => some (some .universal)
  | sign :: cs => do
    if sign ≠ '+' ∧ sign ≠ '-' then none
    let (hours, cs) ← readDigits 2 0 23 cs
    let (minutes, cs) ← readDigits 2 0 59 (← expect ':' cs)
    let total := 60 * hours + minutes
    if cs.isEmpty then
      some (some (.minutes (if sign = '-' then -(total : Int) else total)))
    else none

/-- What stands between a date and its time. -/
def isSeparator (c : Char) : Bool := c = 'T' || c = 't' || c = ' '

/-- A date, a time or both. -/
def read (cs : List Char) : Option Datetime :=
  match readDate cs with
  | some (d, []) => some (.date d)
  | some (d, separator :: cs) => do
    if !isSeparator separator then none
    let (t, cs) ← readTime cs
    let offset ← readOffset cs
    some (.both d t offset)
  | none =>
    match readTime cs with
    | some (t, []) => some (.time t)
    | _ => none

/-- A number with leading zeros up to a width. -/
def padded (width n : Nat) : String :=
  let digits := Nat.toDigits 10 n
  String.ofList (List.replicate (width - digits.length) '0' ++ digits)

/-- A fraction of a second, without trailing zeros. -/
def renderFraction (nanosecond : Nat) : String :=
  if nanosecond = 0 then ""
  else
    let digits := (padded 9 nanosecond).toList
    "." ++ String.ofList (digits.reverse.dropWhile (· == '0')).reverse

/-- The text of a date. -/
def renderDate (d : Date) : String :=
  padded 4 d.year ++ "-" ++ padded 2 d.month ++ "-" ++ padded 2 d.day

/-- The text of a time of day. -/
def renderTime (t : TimeOfDay) : String :=
  padded 2 t.hour ++ ":" ++ padded 2 t.minute ++ ":" ++ padded 2 t.second ++
    renderFraction t.nanosecond

/-- The text of an offset. -/
def renderOffset : TimeOffset → String
  | .universal => "Z"
  | .minutes count =>
    (if count < 0 then "-" else "+") ++ padded 2 (count.natAbs / 60) ++ ":" ++
      padded 2 (count.natAbs % 60)

/-- The normal form of a date, a time or both. -/
def render : Datetime → String
  | .date d => renderDate d
  | .time t => renderTime t
  | .both d t offset =>
    renderDate d ++ "T" ++ renderTime t ++ (offset.map renderOffset).getD ""

end Datetime

end QueryPlanner
