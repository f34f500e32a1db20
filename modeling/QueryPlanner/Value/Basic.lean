import QueryPlanner.Binary64.Layout
import QueryPlanner.Text.Quoted

/-!
# Values

What a query carries, written literally or interpolated.  A map keeps its entries in order and may
repeat a key.

* `Value.render` — the text of a value in messages
* `Value.same` — whether two values are one, which decides their equality
-/

namespace QueryPlanner

/-- A literal or interpolated value. -/
inductive Value where
  | null
  | bool (b : Bool)
  | int (i : Int)
  | float (x : Binary64)
  | string (s : String)
  | list (items : List Value)
  | map (entries : List (String × Value))
  | binary (bytes : List UInt8)
  deriving Inhabited

namespace Value

/-- The null value. -/
def isNull : Value → Bool
  | null => true
  | _ => false

/-- Numbers are shown without an exponent from `10 ^ -4` up to, but not at, `10 ^ 16`. -/
def floatLayout : Binary64.Layout where
  leastPlain := -4
  firstScientific := 16
  exponentPlus := false
  tie := .up
  notANumber := "NaN"
  infinity := "inf"
  negativeInfinity := "-inf"

/-- Texts in a row, a comma and a blank between them. -/
def commaSeparated (texts : List String) : String := String.intercalate ", " texts

mutual

/-- The text of a value in messages. -/
def render : Value → String
  | null => "nil"
  | bool b => if b then "true" else "false"
  | int i => toString i
  | float x => x.render floatLayout
  | string s => Text.quote s
  | list items => "[" ++ commaSeparated (renderItems items) ++ "]"
  | map entries => "%\x7b" ++ commaSeparated (renderEntries entries) ++ "\x7d"
  | binary bytes => "<<" ++ commaSeparated (bytes.map fun b => toString b.toNat) ++ ">>"

/-- The texts of the items of a list. -/
def renderItems : List Value → List String
  | [] => []
  | v :: vs => v.render :: renderItems vs

/-- The texts of the entries of a map. -/
def renderEntries : List (String × Value) → List String
  | [] => []
  | (k, v) :: es => (k ++ ": " ++ v.render) :: renderEntries es

end

/-! ### Equality -/

mutual

/-- Whether two values are one.  Floats are compared by their words. -/
def same : Value → Value → Bool
  | null, null => true
  | bool b, bool b' => b == b'
  | int i, int i' => i == i'
  | float x, float x' => decide (x = x')
  | string s, string s' => s == s'
  | list items, list items' => sameItems items items'
  | map entries, map entries' => sameEntries entries entries'
  | binary bytes, binary bytes' => bytes == bytes'
  | _, _ => false

/-- Whether the items of two lists are the same in order. -/
def sameItems : List Value → List Value → Bool
  | [], [] => true
  | v :: vs, w :: ws => v.same w && sameItems vs ws
  | _, _ => false

/-- Whether the entries of two maps are the same in order. -/
def sameEntries : List (String × Value) → List (String × Value) → Bool
  | [], [] => true
  | (k, v) :: es, (l, w) :: fs => k == l && v.same w && sameEntries es fs
  | _, _ => false

end

mutual

theorem same_iff : ∀ v w : Value, v.same w = true ↔ v = w
  | null, w => by cases w <;> simp [same]
  | bool b, w => by cases w <;> simp [same]
  | int i, w => by cases w <;> simp [same]
  | float x, w => by cases w <;> simp [same]
  | string s, w => by cases w <;> simp [same]
  | list items, w => by cases w <;> simp [same, sameItems_iff items]
  | map entries, w => by cases w <;> simp [same, sameEntries_iff entries]
  | binary bytes, w => by cases w <;> simp [same]

theorem sameItems_iff : ∀ vs ws : List Value, sameItems vs ws = true ↔ vs = ws
  | [], ws => by cases ws <;> simp [sameItems]
  | v :: vs, ws => by cases ws <;> simp [sameItems, same_iff v, sameItems_iff vs]

theorem sameEntries_iff :
    ∀ es fs : List (String × Value), sameEntries es fs = true ↔ es = fs
  | [], fs => by cases fs <;> simp [sameEntries]
  | (k, v) :: es, fs => by
    cases fs <;> simp [sameEntries, same_iff v, sameEntries_iff es, Prod.ext_iff]

end

instance : DecidableEq Value := fun v w => decidable_of_iff _ (same_iff v w)

end Value

end QueryPlanner
