import QueryPlanner.FieldType
import QueryPlanner.Text.Numeral

/-!
# Casting and dumping values

Casting turns a value from outside into the logical value of a type; dumping turns a logical value
into its stored form.  Null stays null under both.  Types beyond the primitive ones are given by a
table of custom types, each with a storage type that its own dump is checked against.

* `Conversions.cast` — from outside to logical
* `Conversions.dump` — from logical to stored
-/

namespace QueryPlanner

/-- Why a value has no counterpart in a type. -/
inductive ConversionError where
  | invalid (type : FieldType)
  | unknownType (name : String)
  deriving DecidableEq, Repr

/-- The text of a conversion error. -/
def ConversionError.message : ConversionError → String
  | invalid type => "invalid value for type " ++ type.render
  | unknownType name => "unknown custom type `" ++ name ++ "`"

/-- A named type whose logical values differ from its stored ones. -/
structure CustomType where
  name : String
  /-- The type that what `dump` yields is dumped with in turn. -/
  storage : FieldType
  cast : Value → Except ConversionError Value
  dump : Value → Except ConversionError Value

/-- The custom types known to a planner, the latest of a name first. -/
structure Conversions where
  customTypes : List CustomType

namespace Conversions

/-- The custom type of a name. -/
def find (c : Conversions) (name : String) : Except ConversionError CustomType :=
  match c.customTypes.find? (·.name == name) with
  | some custom => .ok custom
  | none => .error (.unknownType name)

/-- Add a custom type, in place of one of the same name. -/
def withCustom (c : Conversions) (custom : CustomType) : Conversions :=
  ⟨custom :: c.customTypes.filter (·.name != custom.name)⟩

/-- A value that may be null, or an error for the given type. -/
def orInvalid (type : FieldType) : Option Value → Except ConversionError Value
  | some v => .ok v
  | none => .error (.invalid type)

/-- The truth value that a word or digit stands for. -/
def readBoolean (s : String) : Option Bool :=
  if s = "true" || s = "1" then some true
  else if s = "false" || s = "0" then some false
  else none

/-- The logical value of a type for a value from outside. -/
def cast (c : Conversions) : FieldType → Value → Except ConversionError Value
  | _, .null => .ok .null
  | .any, v => .ok v
  | .id, .int i => .ok (.int i)
  | .id, .string s => orInvalid .id ((Text.readInt64 s).map .int)
  | .integer, .int i => .ok (.int i)
  | .integer, .string s => orInvalid .integer ((Text.readInt64 s).map .int)
  | .float, .float x => .ok (.float x)
  | .float, .int i => .ok (.float (Binary64.ofInt i))
  | .float, .string s => orInvalid .float ((Text.readFloat s).map .float)
  | .boolean, .bool b => .ok (.bool b)
  | .boolean, .string s => orInvalid .boolean ((readBoolean s).map .bool)
  | .string, .string s => .ok (.string s)
  | .binary, .binary bytes => .ok (.binary bytes)
  | .binary, .string s => .ok (.binary s.toUTF8.toList)
  | .map, .map entries => .ok (.map entries)
  | .array element, .list items => do
    let cast ← items.mapM (c.cast element)
    .ok (.list cast)
  | .custom name, v => do
    let custom ← c.find name
    custom.cast v
  | type, _ => .error (.invalid type)

/-- The stored form of a logical value, custom types being left to `custom`. -/
def dumpWith (custom : String → Value → Except ConversionError Value) :
    FieldType → Value → Except ConversionError Value
  | _, .null => .ok .null
  | .any, v => .ok v
  | .id, .int i => .ok (.int i)
  | .integer, .int i => .ok (.int i)
  | .float, .float x => .ok (.float x)
  | .float, .int i => .ok (.float (Binary64.ofInt i))
  | .boolean, .bool b => .ok (.bool b)
  | .string, .string s => .ok (.string s)
  | .binary, .binary bytes => .ok (.binary bytes)
  | .binary, .string s => .ok (.binary s.toUTF8.toList)
  | .map, .map entries => .ok (.map entries)
  | .array element, .list items => do
    let dumped ← items.mapM (dumpWith custom element)
    .ok (.list dumped)
  | .custom name, v => custom name v
  | type, _ => .error (.invalid type)

/-- The stored form of a value of a custom type: its own dump, dumped with its storage type.
`depth` limits how many custom types are entered one inside the other.  One for each type in the
table will do where no type is stored, by way of others, as a type made of itself.  Where one is,
such as a type stored as an array of itself, a value that reaches the limit is refused, although
dumping it further might have come to an end, at a null or an empty list. -/
def dumpCustom (c : Conversions) : Nat → String → Value → Except ConversionError Value
  | 0, name, _ => .error (.invalid (.custom name))
  | depth + 1, name, v => do
    let custom ← c.find name
    let stored ← custom.dump v
    dumpWith (c.dumpCustom depth) custom.storage stored

/-- The stored form of a logical value. -/
def dump (c : Conversions) (type : FieldType) (v : Value) : Except ConversionError Value :=
  dumpWith (c.dumpCustom (c.customTypes.length + 1)) type v

end Conversions

end QueryPlanner
