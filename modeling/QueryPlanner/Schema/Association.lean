import QueryPlanner.Text.ForeignKey
import QueryPlanner.Value.Basic

/-!
# Associations

An association leads from the rows of one schema to rows of another.  All but the chains join in
the same way: the related key of the target equals the owner key of the owner.  A many-to-many
association does so through a table in between; a chain follows other associations one by one.
-/

namespace QueryPlanner

/-- What an association leads to, or through. -/
inductive Related where
  /-- A registered schema. -/
  | schema (name : String)
  /-- A table without schema. -/
  | table (name : String)
  deriving DecidableEq, Repr

/-- A condition on a field. -/
inductive FilterCondition where
  | eq (value : Value)
  | isNil
  | notNil
  | oneOf (values : List Value)
  /-- A text whose question marks stand for the field. -/
  | fragment (text : String)

/-- A condition that an association adds to its join. -/
structure AssociationFilter where
  field : String
  condition : FilterCondition

/-- How an association leads to its target. -/
inductive AssociationKind where
  /-- The owner holds the key of the target. -/
  | belongsTo
  /-- The target holds the key of the owner. -/
  | hasMany
  | hasOne
  /-- A table in between holds the keys of both. -/
  | manyToMany (joinThrough : Related) (joinOwnerKey joinRelatedKey : String)
      (joinFilters : List AssociationFilter)
  /-- Each association of the chain starts where the one before it leads. -/
  | through (chain : List String)

/-- A declared association. -/
structure Association where
  name : String
  kind : AssociationKind
  /-- The target; a chain leads to the target of its last association instead. -/
  related : Related
  ownerKey : String
  relatedKey : String
  /-- Conditions on the target. -/
  filters : List AssociationFilter := []

namespace Association

/-- The owner holds the foreign key named after the association. -/
def belongsTo (name related : String) : Association where
  name := name
  kind := .belongsTo
  related := .schema related
  ownerKey := Text.foreignKey name
  relatedKey := "id"

/-- The target holds the foreign key named after the owner. -/
def hasMany (owner name : String) (related : Related) : Association where
  name := name
  kind := .hasMany
  related := related
  ownerKey := "id"
  relatedKey := Text.foreignKey owner

/-- As `hasMany`, for a single row. -/
def hasOne (owner name related : String) : Association :=
  { hasMany owner name (.schema related) with kind := .hasOne }

/-- The table in between holds foreign keys named after the owner and the target. -/
def manyToMany (owner name related : String) (joinThrough : Related) : Association where
  name := name
  kind := .manyToMany joinThrough (Text.foreignKey owner) (Text.foreignKey related) []
  related := .schema related
  ownerKey := "id"
  relatedKey := "id"

/-- A chain of associations; it has no target or keys of its own. -/
def through (name : String) (chain : List String) : Association where
  name := name
  kind := .through chain
  related := .table ""
  ownerKey := ""
  relatedKey := ""

/-- Replace both keys. -/
def withKeys (a : Association) (ownerKey relatedKey : String) : Association :=
  { a with ownerKey, relatedKey }

/-- Add a condition on the target. -/
def withFilter (a : Association) (field : String) (condition : FilterCondition) : Association :=
  { a with filters := a.filters ++ [⟨field, condition⟩] }

/-- Add a condition on the table in between, if there is one. -/
def withJoinFilter (a : Association) (field : String) (condition : FilterCondition) : Association :=
  match a.kind with
  | .manyToMany joinThrough ownerKey relatedKey filters =>
    { a with kind := .manyToMany joinThrough ownerKey relatedKey (filters ++ [⟨field, condition⟩]) }
  | _ => a

end Association

end QueryPlanner
