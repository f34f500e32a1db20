import QueryPlanner.Text.Hex
import QueryPlanner.Text.Numeral
import QueryPlanner.Toml.Basic

/-!
# Numbers of TOML

A number is a whole word.  Underscores may part its digits, and a decimal number has no needless
zero in front.  A word of this form is a number even if it has no value.

* `Toml.hasGroups` — the form of a decimal integer in groups, whose digits are looked at later
* `Toml.readInteger` — decimal, or without sign in base sixteen, eight or two
* `Toml.readFloat` — with point or exponent, or the words for infinity and not-a-number
-/

namespace QueryPlanner

namespace Toml

/-- The digits of a word without the underscores, each of which has a digit on either side.
`afterDigit` says that an underscore may come next. -/
def ungroup (isDigit : Char → Bool) (afterDigit : Bool) : List Char → Option (List Char)
  | [] => if afterDigit then some [] else none
  | c :: cs =>
    if isDigit c then (ungroup isDigit true cs).map (c :: ·)
    else if c = '_' && afterDigit then ungroup isDigit false cs
    else none

/-- Whether a sign stands in front. -/
def isSigned (cs : List Char) : Bool := cs.head? == some '+' || cs.head? == some '-'

/-- Decimal digits without a needless zero in front.  Behind a sign an underscore may open them, and
the zeros after it do no harm. -/
def wholeDigits (signed : Bool) (cs : List Char) : Option (List Char) := do
  let digits ← ungroup Char.isDigit signed cs
  if digits.isEmpty || cs.head? == some '0' && 1 < digits.length then none else some digits

/-- A digit of base sixteen, in either case. -/
def isHexDigit (c : Char) : Bool := (Text.hexValue? c).isSome

/-- Each underscore of a word has a digit of base sixteen on either side. -/
def isParted (afterDigit : Bool) : List Char → Bool
  | [] => true
  | c :: cs =>
    if c = '_' then afterDigit && cs.head?.any isHexDigit && isParted false cs
    else isParted (isHexDigit c) cs

/-- The form of a decimal integer in groups: the first group is of decimal digits, and underscores
part the groups.  The other groups are free to hold what is no digit, and then there is no value. -/
def hasGroups (signed : Bool) (cs : List Char) : Bool :=
  cs.head? != some '0' && (cs.dropWhile Char.isDigit).head? == some '_' &&
    !cs.any ['.', 'e', 'E'].contains && isParted signed cs

/-- An integer has a value if it fits into 128 bits, with or without a sign. -/
def ofInteger (i : Int) : Toml :=
  if -(Nat.pow 2 127 : Int) ≤ i ∧ i < (Nat.pow 2 128 : Int) then integer i else invalidNumber

/-- A floating point number has a value if it is finite. -/
def ofFloat (x : Binary64) : Toml := if x.isInfinite then invalidNumber else float x

/-- Digits of a base up to sixteen.  Without any there is no value. -/
def readBase (base : Nat) (cs : List Char) : Option Toml :=
  if cs.isEmpty then some invalidNumber
  else do
    let isDigit := fun c => (Text.hexValue? c).any (· < base)
    let digits ← ungroup isDigit false cs
    some (ofInteger (digits.foldl (fun n c => base * n + (Text.hexValue? c).getD 0) 0 : Nat))

/-- An integer. -/
def readInteger : List Char → Option Toml
  | '0' :: 'x' :: cs => readBase 16 cs
  | '0' :: 'o' :: cs => readBase 8 cs
  | '0' :: 'b' :: cs => readBase 2 cs
  | cs =>
    let signed := isSigned cs
    let (negative, cs) := Text.splitSign cs
    match wholeDigits signed cs with
    | some digits =>
      some (ofInteger (if negative then -(Text.ofDigits digits : Int) else Text.ofDigits digits))
    | none => if hasGroups signed cs then some invalidNumber else none

/-- Digits and underscores. -/
def isGrouped (c : Char) : Bool := c.isDigit || c = '_'

/-- A point with the digits after it, or nothing: the digits and the rest of the word. -/
def readFraction : List Char → Option (List Char × List Char)
  | '.' :: cs => (ungroup Char.isDigit false (cs.takeWhile isGrouped)).map
      (·, cs.dropWhile isGrouped)
  | cs => some ([], cs)

/-- The exponent at the end of a word, or none. -/
def readExponent : List Char → Option Int
  | [] => some 0
  | mark :: cs => do
    if mark ≠ 'e' ∧ mark ≠ 'E' then none
    let (negative, cs) := Text.splitSign cs
    let digits ← ungroup Char.isDigit false cs
    some (if negative then -(Text.ofDigits digits : Int) else Text.ofDigits digits)

/-- A floating point number: one of the two words, or digits with a point or an exponent. -/
def readFloat (cs : List Char) : Option Toml := do
  let signed := isSigned cs
  let (negative, cs) := Text.splitSign cs
  if cs = "inf".toList then some (float (.ofMagnitude negative Binary64.infinity.magnitude))
  else if cs = "nan".toList then some (float (.ofMagnitude negative Binary64.nan.magnitude))
  else
    let whole ← wholeDigits signed (cs.takeWhile isGrouped)
    let afterWhole := cs.dropWhile isGrouped
    if afterWhole.isEmpty then none
    let (fraction, rest) ← readFraction afterWhole
    let exponent ← readExponent rest
    some (ofFloat (.ofDecimal negative (Text.ofDigits (whole ++ fraction))
      (exponent - fraction.length)))

end Toml

end QueryPlanner
