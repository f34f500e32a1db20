import QueryPlanner.Text.Hex

/-!
# Universally unique identifiers

Sixteen bytes, written as thirty-two hexadecimal digits, alone or in groups with hyphens.

* `Uuid.read` — plain digits, or groups of 8-4-4-4-12, the latter also in braces or after
  `urn:uuid:`
* `Uuid.render` — the grouped form in lower case
-/

namespace QueryPlanner

/-- The sixteen bytes of an identifier. -/
structure Uuid where
  bytes : List UInt8
  length_eq : bytes.length = 16

namespace Uuid

/-- Sixteen bytes are an identifier. -/
def ofBytes? (bytes : List UInt8) : Option Uuid :=
  if h : bytes.length = 16 then some ⟨bytes, h⟩ else none

/-- Pairs of hexadecimal digits as bytes. -/
def hexBytes? : List Char → Option (List UInt8)
  | [] => some []
  | [_] => none
  | a :: b :: rest => do
    let high ← Text.hexValue? a
    let low ← Text.hexValue? b
    let bytes ← hexBytes? rest
    some (UInt8.ofNat (16 * high + low) :: bytes)

/-- The digits of the groups 8-4-4-4-12, if hyphens stand between them and nowhere else. -/
def ungroup? (cs : List Char) : Option (List Char) :=
  if cs.length = 36 ∧ cs[8]? = some '-' ∧ cs[13]? = some '-' ∧ cs[18]? = some '-' ∧
      cs[23]? = some '-' then
    some (cs.take 8 ++ (cs.drop 9).take 4 ++ (cs.drop 14).take 4 ++ (cs.drop 19).take 4 ++
      cs.drop 24)
  else none

/-- The grouped form, without the braces or the name in front of it. -/
def unwrap (cs : List Char) : List Char :=
  if cs.length = 38 ∧ cs.head? = some '\x7b' ∧ cs.getLast? = some '\x7d' then
    (cs.drop 1).take 36
  else if cs.length = 45 ∧ (cs.take 9).map Char.toLower = "urn:uuid:".toList then cs.drop 9
  else cs

/-- An identifier from its text. -/
def read (s : String) : Option Uuid :=
  let cs := s.toList
  let digits? := if cs.length = 32 then some cs else ungroup? (unwrap cs)
  (digits?.bind hexBytes?).bind ofBytes?

/-- The two lower case digits of a byte. -/
def byteDigits (b : UInt8) : List Char :=
  [Nat.digitChar (b.toNat / 16), Nat.digitChar (b.toNat % 16)]

/-- The grouped form in lower case. -/
def render (u : Uuid) : String :=
  let digits := u.bytes.flatMap byteDigits
  String.ofList (digits.take 8 ++ '-' :: (digits.drop 8).take 4 ++ '-' :: (digits.drop 12).take 4 ++
    '-' :: (digits.drop 16).take 4 ++ '-' :: digits.drop 20)

end Uuid

end QueryPlanner
