import QueryPlanner.Json.Numeral
import QueryPlanner.Json.Quoted
import QueryPlanner.Value.Entries

/-!
# Values written as JSON

A value has no null in it.  Maps are put in the order of their keys, and arrays and objects are
nested to a limited depth.

* `Json.readValue` — a value off the front of a text
* `Json.read` — the value of a whole text
-/

namespace QueryPlanner

namespace Json

/-- The blanks of JSON. -/
def isBlank (c : Char) : Bool := c = ' ' || c = '\t' || c = '\n' || c = '\r'

/-- Pass over blanks. -/
def skipBlanks (cs : List Char) : List Char := cs.dropWhile isBlank

/-- How deep arrays and objects may be nested. -/
def maxDepth : Nat := 127

/-- An entry of an object: a string, a colon and what `value` reads. -/
def readEntry (value : Text.Reader Value) : Text.Reader (String × Value) := fun cs => do
  let rest ← Text.Reader.strip? ['"'] cs
  let (key, rest) ← readString rest
  let rest ← Text.Reader.strip? [':'] (skipBlanks rest)
  let (v, rest) ← value rest
  some ((key, v), rest)

/-- A value that is neither an array nor an object. -/
def readScalar : Text.Reader Value
  | '"' :: cs => (readString cs).map fun (s, rest) => (.string s, rest)
  | 't' :: cs => (Text.Reader.strip? "rue".toList cs).map (.bool true, ·)
  | 'f' :: cs => (Text.Reader.strip? "alse".toList cs).map (.bool false, ·)
  | cs => readNumber cs

/-- A value with blanks in front of it, nested at most to the given depth. -/
def readValue (depth : Nat) : Text.Reader Value := fun cs =>
  match skipBlanks cs, depth with
  | '[' :: rest, depth + 1 =>
    (Text.Reader.enclosed (some ∘ skipBlanks) (readValue depth) ']' false rest).map
      fun (values, rest) => (.list values, rest)
  | '\x7b' :: rest, depth + 1 =>
    (Text.Reader.enclosed (some ∘ skipBlanks) (readEntry (readValue depth)) '\x7d' false rest).map
      fun (entries, rest) => (.ofEntries entries, rest)
  | '[' :: _, 0 => none
  | '\x7b' :: _, 0 => none
  | rest, _ => readScalar rest

/-- The value that a text writes; nothing but blanks may follow it. -/
def read (text : String) : Option Value :=
  match readValue maxDepth text.toList with
  | some (value, rest) => if (skipBlanks rest).isEmpty then some value else none
  | none => none

end Json

end QueryPlanner
