import QueryPlanner.CacheKey.Basic

/-!
# The text of a cache key

A key is written as JSON without blanks.  Each node but the parameter marker, and each value but
null, is an object whose only key names its kind.

* `KeyNode.text`, `KeyNode.keyText` — the text of a node and of a whole key
-/

namespace QueryPlanner

namespace KeyNode

/-- Numbers in keys are shown without an exponent from `10 ^ -5` up to, but not at, `10 ^ 16`; an
exponent carries its sign.  What is no finite number is null. -/
def floatLayout : Binary64.Layout where
  leastPlain := -5
  firstScientific := 16
  exponentPlus := true
  tie := .even
  notANumber := "null"
  infinity := "null"
  negativeInfinity := "null"

/-- A character inside a string. -/
def escape (c : Char) : List Char :=
  if c = '"' then ['\\', '"']
  else if c = '\\' then ['\\', '\\']
  else if c = '\x08' then ['\\', 'b']
  else if c = '\t' then ['\\', 't']
  else if c = '\n' then ['\\', 'n']
  else if c = '\x0c' then ['\\', 'f']
  else if c = '\r' then ['\\', 'r']
  else if c.toNat < 32 then
    ['\\', 'u', '0', '0', Nat.digitChar (c.toNat / 16), Nat.digitChar (c.toNat % 16)]
  else [c]

/-- A string between double quotes. -/
def quoted (s : String) : List Char := '"' :: (s.toList.flatMap escape ++ ['"'])

/-- Texts with commas between them. -/
def commaSeparated : List (List Char) → List Char
  | [] => []
  | [text] => text
  | text :: texts => text ++ ',' :: commaSeparated texts

/-- An array. -/
def array (texts : List (List Char)) : List Char := '[' :: (commaSeparated texts ++ [']'])

/-- An object with one key. -/
def object (name : String) (text : List Char) : List Char :=
  '\x7b' :: (quoted name ++ ':' :: (text ++ ['\x7d']))

mutual

/-- The text of a value. -/
def valueText : Value → List Char
  | .null => quoted "Null"
  | .bool b => object "Bool" (if b then "true" else "false").toList
  | .int i => object "Int" (toString i).toList
  | .float x => object "Float" (x.render floatLayout).toList
  | .string s => object "String" (quoted s)
  | .list items => object "List" (array (valueTexts items))
  | .map entries => object "Map" (array (entryTexts entries))
  | .binary bytes => object "Binary" (array (bytes.map fun b => (toString b.toNat).toList))

/-- The texts of the items of a list. -/
def valueTexts : List Value → List (List Char)
  | [] => []
  | v :: vs => valueText v :: valueTexts vs

/-- The texts of the entries of a map, each an array of key and value. -/
def entryTexts : List (String × Value) → List (List Char)
  | [] => []
  | (k, v) :: es => array [quoted k, valueText v] :: entryTexts es

end

mutual

/-- The text of a node. -/
def text : KeyNode → List Char
  | atom s => object "atom" (quoted s)
  | value v => object "value" (valueText v)
  | param => quoted "param"
  | list children => object "list" (array (texts children))
  | tagged tag children => object "tagged" (array [quoted tag, array (texts children)])

/-- The texts of a list of nodes. -/
def texts : List KeyNode → List (List Char)
  | [] => []
  | n :: ns => n.text :: texts ns

end

/-- The text of a whole key. -/
def keyText (nodes : List KeyNode) : List Char := array (texts nodes)

end KeyNode

namespace CacheKey

/-- The text of a key; nothing for a query without one. -/
def text? : CacheKey → Option String
  | key nodes => some (String.ofList (KeyNode.keyText nodes))
  | uncacheable => none

end CacheKey

end QueryPlanner
