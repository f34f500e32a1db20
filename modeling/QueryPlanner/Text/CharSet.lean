/-!
# Sets of characters

A property of characters is stored as the ascending list of the code points at which it starts or
stops to hold.  A character has the property when an odd number of these points lie at or below it.
The properties are those of version 17 of the Unicode standard.
-/

namespace QueryPlanner

/-- A set of characters, given by the code points at which membership changes. -/
structure CharSet where
  changes : List Nat

namespace CharSet

/-- An odd number of changes up to the character means that it lies in a run of members. -/
def contains (s : CharSet) (c : Char) : Bool :=
  (s.changes.takeWhile (· ≤ c.toNat)).length % 2 = 1

end CharSet

end QueryPlanner
