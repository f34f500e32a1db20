import QueryPlanner.Schema.Registry
import QueryPlanner.Toml.Reader
import QueryPlanner.Toml.Values

/-!
# Registries written as TOML

A document lists schemas with their fields and associations.  Parts that nobody asks for are passed
over; a part that is missing or of the wrong kind makes the whole document unreadable.

* `FieldType.ofToml`, `Association.ofToml`, `Schema.ofToml` — one part each
* `Registry.ofDocument` — the registry of a document
-/

namespace QueryPlanner

/-- The types that a word names. -/
def FieldType.ofWord? : String → Option FieldType
  | "any" => some .any
  | "id" => some .id
  | "integer" => some .integer
  | "float" => some .float
  | "boolean" => some .boolean
  | "string" => some .string
  | "binary" => some .binary
  | "map" => some .map
  | _ => none

/-- A type: a word, or a table with the element type of an array or the name of a custom type. -/
def FieldType.ofToml : Toml → Option FieldType
  | .string word => ofWord? word
  | .table [("array", element)] => (ofToml element).map .array
  | .table [("custom", name)] => name.text?.map .custom
  | .table [(word, content)] => if content.isEmpty then ofWord? word else none
  | _ => none

/-- A target: a schema or a table. -/
def Related.ofToml (t : Toml) : Option Related :=
  match t.variant? with
  | some ("schema", some name) => name.text?.map .schema
  | some ("table", some name) => name.text?.map .table
  | _ => none

/-- A condition of a filter. -/
def FilterCondition.ofToml (t : Toml) : Option FilterCondition := do
  match ← t.variant? with
  | ("eq", some value) => value.toValue.map .eq
  | ("is_nil", content) => if Toml.isBare content then some .isNil else none
  | ("not_nil", content) => if Toml.isBare content then some .notNil else none
  | ("in", some values) => (values.listOf Toml.toValue).map .oneOf
  | ("fragment", some text) => text.text?.map .fragment
  | _ => none

/-- A filter: a field and a condition. -/
def AssociationFilter.ofToml (t : Toml) : Option AssociationFilter := do
  let r ← t.record? ["field", "condition"]
  let field ← r.required "field" Toml.text?
  let condition ← r.required "condition" FilterCondition.ofToml
  some { field, condition }

/-- The table in between with its keys; this record has no parts besides them. -/
def AssociationKind.manyToManyOf (t : Toml) : Option AssociationKind := do
  let names := ["join_through", "join_owner_key", "join_related_key", "join_where"]
  let r ← t.record? names
  if !r.onlyNames names then none
  let joinThrough ← r.required "join_through" Related.ofToml
  let ownerKey ← r.required "join_owner_key" Toml.text?
  let relatedKey ← r.required "join_related_key" Toml.text?
  let filters ← r.optional "join_where" (Toml.listOf AssociationFilter.ofToml) []
  some (.manyToMany joinThrough ownerKey relatedKey filters)

/-- How an association leads to its target. -/
def AssociationKind.ofToml (t : Toml) : Option AssociationKind := do
  match ← t.variant? with
  | ("belongs_to", content) => if Toml.isBare content then some .belongsTo else none
  | ("has_many", content) => if Toml.isBare content then some .hasMany else none
  | ("has_one", content) => if Toml.isBare content then some .hasOne else none
  | ("many_to_many", some content) => manyToManyOf content
  | ("through", some chain) => (chain.listOf Toml.text?).map .through
  | _ => none

/-- An association. -/
def Association.ofToml (t : Toml) : Option Association := do
  let r ← t.record? ["name", "kind", "related", "owner_key", "related_key", "filters"]
  let name ← r.required "name" Toml.text?
  let kind ← r.required "kind" AssociationKind.ofToml
  let related ← r.required "related" Related.ofToml
  let ownerKey ← r.required "owner_key" Toml.text?
  let relatedKey ← r.required "related_key" Toml.text?
  let filters ← r.optional "filters" (Toml.listOf AssociationFilter.ofToml) []
  some { name, kind, related, ownerKey, relatedKey, filters }

/-- A field. -/
def FieldDef.ofToml (t : Toml) : Option FieldDef := do
  let r ← t.record? ["name", "type", "virtual", "exclude_from_load"]
  let name ← r.required "name" Toml.text?
  let type ← r.required "type" FieldType.ofToml
  let isVirtual ← r.optional "virtual" Toml.flag? false
  let excludeFromLoad ← r.optional "exclude_from_load" Toml.flag? false
  some { name, type, isVirtual, excludeFromLoad }

/-- A schema.  Nothing is added to what the document declares, not even a primary key. -/
def Schema.ofToml (t : Toml) : Option Schema := do
  let r ← t.record? ["name", "source", "fields", "primary_key", "prefix", "associations"]
  let name ← r.required "name" Toml.text?
  let source ← r.required "source" Toml.text?
  let fields ← r.optional "fields" (Toml.listOf FieldDef.ofToml) []
  let primaryKey ← r.optional "primary_key" (fun t => t.text?.map some) none
  let tablePrefix ← r.optional "prefix" (fun t => t.text?.map some) none
  let associations ← r.optional "associations" (Toml.listOf Association.ofToml) []
  some { name, source, fields, primaryKey, tablePrefix, associations }

namespace Registry

/-- Why a document gives no registry. -/
inductive DocumentError where
  /-- It is no TOML, or not the description of a registry. -/
  | unreadable
  /-- Two schemas share a name. -/
  | duplicate (name : String)
  deriving DecidableEq, Repr

/-- The text of the error for a repeated name; for an unreadable document there is none. -/
def DocumentError.message? : DocumentError → Option String
  | unreadable => none
  | duplicate name => some ("Duplicate schema: " ++ name)

/-- The schemas that a document lists. -/
def schemasOf (text : String) : Option (List Schema) := do
  let document ← Toml.read text
  let r ← document.record? ["schemas"]
  r.optional "schemas" (Toml.listOf Schema.ofToml) []

/-- The registry of a document. -/
def ofDocument (text : String) : Except DocumentError Registry :=
  match schemasOf text with
  | none => .error .unreadable
  | some schemas => (ofDistinct schemas).mapError .duplicate

end Registry

end QueryPlanner
