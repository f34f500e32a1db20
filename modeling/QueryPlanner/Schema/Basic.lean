import QueryPlanner.FieldType
import QueryPlanner.Schema.Association

/-!
# Schemas

What the planner knows of a table: its fields with their types, its primary key and prefix, and the
associations that lead to other tables.  The builder functions keep declaration order.
-/

namespace QueryPlanner

/-- A field of a schema. -/
structure FieldDef where
  name : String
  type : FieldType
  /-- A virtual field exists on the schema but not in storage. -/
  isVirtual : Bool := false
  /-- An excluded field is not loaded unless it is asked for. -/
  excludeFromLoad : Bool := false

/-- What is known of one table. -/
structure Schema where
  name : String
  /-- The table. -/
  source : String
  fields : List FieldDef := []
  primaryKey : Option String := none
  tablePrefix : Option String := none
  associations : List Association := []

namespace Schema

/-- A schema with an `id` as its primary key. -/
def ofTable (name source : String) : Schema where
  name := name
  source := source
  fields := [{ name := "id", type := .id }]
  primaryKey := some "id"

/-- The first field of a name. -/
def field? (s : Schema) (name : String) : Option FieldDef := s.fields.find? (·.name == name)

/-- The first association of a name. -/
def association? (s : Schema) (name : String) : Option Association :=
  s.associations.find? (·.name == name)

/-- The fields that a default select loads, in declaration order. -/
def loadFields (s : Schema) : List FieldDef :=
  s.fields.filter fun f => !f.isVirtual && !f.excludeFromLoad

/-- The names of the fields that a default select loads. -/
def loadNames (s : Schema) : List String := s.loadFields.map (·.name)

/-- Add a field. -/
def addField (s : Schema) (f : FieldDef) : Schema := { s with fields := s.fields ++ [f] }

/-- Add a stored field. -/
def field (s : Schema) (name : String) (type : FieldType) : Schema := s.addField { name, type }

/-- Add a field that is not stored. -/
def virtualField (s : Schema) (name : String) (type : FieldType) : Schema :=
  s.addField { name, type, isVirtual := true }

/-- Add a field that default selects skip. -/
def unloadedField (s : Schema) (name : String) (type : FieldType) : Schema :=
  s.addField { name, type, excludeFromLoad := true }

/-- The fields with the first one of a name retyped. -/
def retype (name : String) (type : FieldType) : List FieldDef → List FieldDef
  | [] => []
  | f :: fs => if f.name = name then { f with type } :: fs else f :: retype name type fs

/-- Declare the primary key.  A key of another name takes the place of `id`; a field of its name
keeps its place, and otherwise the key comes first. -/
def withPrimaryKey (s : Schema) (name : String) (type : FieldType) : Schema :=
  let kept := s.fields.filter fun f => f.name != "id" || name == "id"
  let fields :=
    if kept.any (·.name == name) then retype name type kept else { name, type } :: kept
  { s with fields, primaryKey := some name }

/-- Declare that there is no primary key. -/
def withoutPrimaryKey (s : Schema) : Schema := { s with primaryKey := none }

/-- The key that associations from the owner's side join on. -/
def ownerKey (s : Schema) : String := s.primaryKey.getD "id"

/-- Set the default prefix of the table. -/
def withPrefix (s : Schema) (tablePrefix : String) : Schema :=
  { s with tablePrefix := some tablePrefix }

/-- Add an association as it is. -/
def addAssociation (s : Schema) (a : Association) : Schema :=
  { s with associations := s.associations ++ [a] }

/-- Add a `belongs_to` association, and its key as a field unless there is one of that name. -/
def belongsTo (s : Schema) (name related : String) : Schema :=
  let a := Association.belongsTo name related
  let keyed := if (s.field? a.ownerKey).isNone then s.field a.ownerKey .id else s
  keyed.addAssociation a

/-- Add a `has_many` association from the primary key. -/
def hasMany (s : Schema) (name related : String) : Schema :=
  s.addAssociation
    { Association.hasMany s.name name (.schema related) with ownerKey := s.ownerKey }

/-- Add a `has_one` association from the primary key. -/
def hasOne (s : Schema) (name related : String) : Schema :=
  s.addAssociation { Association.hasOne s.name name related with ownerKey := s.ownerKey }

/-- Add a many-to-many association from the primary key. -/
def manyToMany (s : Schema) (name related : String) (joinThrough : Related) : Schema :=
  s.addAssociation
    { Association.manyToMany s.name name related joinThrough with ownerKey := s.ownerKey }

/-- Add a chain of associations. -/
def hasThrough (s : Schema) (name : String) (chain : List String) : Schema :=
  s.addAssociation (.through name chain)

end Schema

end QueryPlanner
