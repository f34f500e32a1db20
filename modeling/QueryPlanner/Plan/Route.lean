import QueryPlanner.Plan.Error
import QueryPlanner.Schema.Registry

/-!
# Routes along associations

An association unfolds into hops, each one join of tables: a chain into those of its associations in
turn, a many-to-many association into two, any other into one.  This depends on the registry alone;
which bindings the hops get is decided later.

* `Registry.route` — the hops of an association
* `RouteFault` — why an association does not unfold
-/

namespace QueryPlanner

/-- The table at the end of a hop, with its schema if it has one. -/
structure Target where
  table : String
  schema : Option Schema

/-- One join of tables on the way along an association. -/
structure Hop where
  /-- The association that the join shows; a table in between shows none. -/
  association : Option String
  target : Target
  /-- The key on the target. -/
  relatedKey : String
  /-- The key on the table that the hop starts from. -/
  ownerKey : String
  /-- Conditions on the target. -/
  filters : List AssociationFilter

/-- Why an association does not unfold into hops. -/
inductive RouteFault where
  | cyclic (association schema : String)
  | emptyChain (association : String)
  | hopMissing (schema association through : String)
  | schemaMissing (schema : String)
  /-- A chain goes on where the hops so far, `hops` of them, lead to a table without schema. -/
  | noSchema (hops : Nat)
  deriving DecidableEq, Repr

/-- The fault of a join whose first intermediate binding is `fresh`. -/
def RouteFault.toFault (fresh : Nat) : RouteFault → Fault
  | cyclic association schema => .cyclicAssociation association schema
  | emptyChain association => .emptyChain association
  | hopMissing schema association through => .hopMissing schema association through
  | schemaMissing schema => .schemaMissing schema
  | noSchema hops => .noSchemaToFollow (fresh + hops - 1)

namespace Registry

/-- The table, and the schema if any, that an association relates to. -/
def target (r : Registry) : Related → Except RouteFault Target
  | .table name => .ok ⟨name, none⟩
  | .schema name =>
    match r.lookup? name with
    | some schema => .ok ⟨schema.source, some schema⟩
    | none => .error (.schemaMissing name)

/-- The hop of an association that is neither a chain nor many-to-many. -/
def directHop (r : Registry) (a : Association) : Except RouteFault (List Hop) := do
  let related ← r.target a.related
  .ok [⟨some a.name, related, a.relatedKey, a.ownerKey, a.filters⟩]

/-- The two hops of a many-to-many association: to the table in between and on to the target. -/
def joinThroughHops (r : Registry) (a : Association) (joinThrough : Related)
    (joinOwnerKey joinRelatedKey : String) (joinFilters : List AssociationFilter) :
    Except RouteFault (List Hop) := do
  let through ← r.target joinThrough
  let related ← r.target a.related
  .ok [⟨none, through, joinOwnerKey, a.ownerKey, joinFilters⟩,
    ⟨some a.name, related, a.relatedKey, joinRelatedKey, a.filters⟩]

/-- The hops of the associations of a chain, each one starting from the schema that the one before
it leads to.  `hops` counts those already made. -/
def chainHops (unfold : Nat → Schema → Association → Except RouteFault (List Hop))
    (through : String) : Nat → Schema → List String → Except RouteFault (List Hop)
  | _, _, [] => .ok []
  | hops, owner, name :: rest =>
    match owner.association? name with
    | none => .error (.hopMissing owner.name name through)
    | some a => do
      let first ← unfold hops owner a
      if rest.isEmpty then .ok first
      else
        match first.getLast?.bind (·.target.schema) with
        | none => .error (.noSchema (hops + first.length))
        | some next =>
          let others ← chainHops unfold through (hops + first.length) next rest
          .ok (first ++ others)

/-- The hops of an association of `owner`, after `hops` others.  `opened` holds the associations
being unfolded around it; each has an owner in the registry, so `depth` counts the registry's. -/
def unfold (r : Registry) :
    Nat → List (String × String) → Nat → Schema → Association → Except RouteFault (List Hop)
  | 0, _, _, owner, a => .error (.cyclic a.name owner.name)
  | depth + 1, opened, hops, owner, a =>
    if opened.contains (owner.name, a.name) then .error (.cyclic a.name owner.name)
    else
      match a.kind with
      | .through [] => .error (.emptyChain a.name)
      | .through chain =>
        chainHops (unfold r depth ((owner.name, a.name) :: opened)) a.name hops owner chain
      | .manyToMany joinThrough ownerKey relatedKey filters =>
        r.joinThroughHops a joinThrough ownerKey relatedKey filters
      | .belongsTo | .hasMany | .hasOne => r.directHop a

/-- The number of associations in the registry. -/
def associationCount (r : Registry) : Nat := (r.schemas.map (·.associations.length)).foldl (· + ·) 0

/-- The hops of an association of a registered schema. -/
def route (r : Registry) (owner : Schema) (a : Association) : Except RouteFault (List Hop) :=
  r.unfold (r.associationCount + 1) [] 0 owner a

end Registry

end QueryPlanner
