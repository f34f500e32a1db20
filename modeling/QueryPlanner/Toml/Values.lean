import QueryPlanner.Text.Numeral
import QueryPlanner.Toml.Basic
import QueryPlanner.Value.Entries

/-!
# Values written as TOML

* `Toml.toValue` — the value of a part of a document
-/

namespace QueryPlanner

namespace Toml

/-- The key under which a date is carried in a value. -/
def datetimeKey : String := "$__toml_private_datetime"

/-- An integer as a value: one that is too large for 64 bits with a sign, but not without, becomes
a floating point number. -/
def integerValue (i : Int) : Option Value :=
  if Int64Range i then some (.int i)
  else if 0 ≤ i ∧ i < (Nat.pow 2 64 : Int) then some (.float (.ofInt i))
  else none

mutual

/-- The value of a part of a document. -/
def toValue : Toml → Option Value
  | string s => some (.string s)
  | integer i => integerValue i
  | float x => some (.float x)
  | invalidNumber => none
  | boolean b => some (.bool b)
  | datetime text => some (.map [(datetimeKey, .string text)])
  | array items => (itemValues items).map .list
  | table entries => (entryValues entries).map .ofEntries

/-- The values of the items of an array. -/
def itemValues : List Toml → Option (List Value)
  | [] => some []
  | t :: ts => do
    let v ← t.toValue
    let vs ← itemValues ts
    some (v :: vs)

/-- The entries of a table with their values. -/
def entryValues : List (String × Toml) → Option (List (String × Value))
  | [] => some []
  | (k, t) :: rest => do
    let v ← t.toValue
    let es ← entryValues rest
    some ((k, v) :: es)

end

end Toml

end QueryPlanner
