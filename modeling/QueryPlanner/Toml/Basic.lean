import QueryPlanner.Binary64.Basic

/-!
# TOML documents

What a document says once it is read: a tree of tables, arrays and scalars.

* `Toml.isSound` — every number has a value
* `Toml.record?` — a table or an array as the parts of a record
* `Toml.variant?` — a string or a table of one entry as one of several alternatives
-/

namespace QueryPlanner

/-- A part of a document. -/
inductive Toml where
  | string (s : String)
  | integer (i : Int)
  | float (x : Binary64)
  /-- A number without a value: it is too large, it has no digits, or not all of it is digits.  It
  may stand where nobody looks. -/
  | invalidNumber
  | boolean (b : Bool)
  /-- A date, a time or both, in their normal form. -/
  | datetime (text : String)
  | array (items : List Toml)
  /-- A table has each key once. -/
  | table (entries : List (String × Toml))
  deriving Inhabited

namespace Toml

/-- The text of a string. -/
def text? : Toml → Option String
  | string s => some s
  | _ => none

/-- A truth value. -/
def flag? : Toml → Option Bool
  | boolean b => some b
  | _ => none

/-- The items of an array, each read by `item`. -/
def listOf {α : Type} (item : Toml → Option α) : Toml → Option (List α)
  | array items => items.mapM item
  | _ => none

/-- A table or array without content. -/
def isEmpty : Toml → Bool
  | array items => items.isEmpty
  | table entries => entries.isEmpty
  | _ => false

mutual

/-- Every number in a part of a document has a value. -/
def isSound : Toml → Bool
  | invalidNumber => false
  | array items => allSound items
  | table entries => allEntriesSound entries
  | _ => true

/-- Every number in the items of an array has a value. -/
def allSound : List Toml → Bool
  | [] => true
  | t :: ts => t.isSound && allSound ts

/-- Every number in the entries of a table has a value. -/
def allEntriesSound : List (String × Toml) → Bool
  | [] => true
  | (_, t) :: rest => t.isSound && allEntriesSound rest

end

/-- The parts of a record with their names. -/
abbrev Record := List (String × Toml)

/-- The parts of a record, whose parts have the given names in this order.  A table names its parts,
and others beside them have to be sound.  An array lists the parts, and what goes beyond the names
is never looked at.  A date is a record that has none of the parts anyone asks for. -/
def record? (names : List String) : Toml → Option Record
  | table entries =>
    if entries.all fun e => names.contains e.1 || e.2.isSound then some entries else none
  | array items => some (names.zip items)
  | datetime _ => some []
  | _ => none

namespace Record

variable {α : Type}

/-- A part that must be there. -/
def required (r : Record) (name : String) (read : Toml → Option α) : Option α :=
  (r.lookup name).bind read

/-- A part that may be missing; it must be right if it is there. -/
def optional (r : Record) (name : String) (read : Toml → Option α) (absent : α) : Option α :=
  match r.lookup name with
  | some part => read part
  | none => some absent

/-- No part has a name other than these. -/
def onlyNames (r : Record) (names : List String) : Bool := r.all fun e => names.contains e.1

end Record

/-- One of several alternatives: a string names one without content, a table of one entry names one
and gives its content. -/
def variant? : Toml → Option (String × Option Toml)
  | string name => some (name, none)
  | table [(name, content)] => some (name, some content)
  | _ => none

/-- An alternative without content may be written with an empty one. -/
def isBare (content : Option Toml) : Bool := content.all isEmpty

end Toml

end QueryPlanner
