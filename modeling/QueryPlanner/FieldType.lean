import QueryPlanner.Value.Basic

/-!
# Types of fields

The type of a schema field or of an annotated expression.

* `FieldType.render` — its text in messages and cache keys
* `FieldType.ofValue` — the type that a literal suggests to what it is compared with
-/

namespace QueryPlanner

/-- The type of a field or of an annotated expression. -/
inductive FieldType where
  /-- No type information: values pass unchanged. -/
  | any
  | id
  | integer
  | float
  | boolean
  | string
  | binary
  | map
  | array (element : FieldType)
  /-- A type registered by name. -/
  | custom (name : String)
  deriving DecidableEq, Repr, Inhabited

namespace FieldType

/-- The element type of an array type. -/
def element? : FieldType → Option FieldType
  | array element => some element
  | _ => none

/-- The type without information. -/
def isAny : FieldType → Bool
  | any => true
  | _ => false

/-- The text of a type. -/
def render : FieldType → String
  | any => "any"
  | id => "id"
  | integer => "integer"
  | float => "float"
  | boolean => "boolean"
  | string => "string"
  | binary => "binary"
  | map => "map"
  | array element => "array(" ++ element.render ++ ")"
  | custom name => name

/-- The primitive type of a literal; null and lists suggest none. -/
def ofValue : Value → FieldType
  | .bool _ => boolean
  | .int _ => integer
  | .float _ => float
  | .string _ => string
  | .binary _ => binary
  | .map _ => map
  | .null | .list _ => any

end FieldType

end QueryPlanner
