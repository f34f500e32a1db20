import QueryPlanner.Normal.Preloads
import QueryPlanner.Query.Basic
import QueryPlanner.Expr.Render

/-!
# Expanding the selection

The selection becomes a flat list of projected expressions, with a description of how rows are made
of them.

* `Projection` — the projected expressions and how to read them
* `Clauses.project` — the projection of a level
-/

namespace QueryPlanner

/-- What the rows of a query are. -/
inductive RowShape where
  /-- Structs made from the fields of a binding. -/
  | struct (binding : Nat) (schema : String)
  /-- Maps made from the fields of a binding. -/
  | map (binding : Nat)
  /-- Any other expression. -/
  | expr
  deriving DecidableEq, Repr

/-- The fields loaded for an association that is preloaded from a join. -/
structure AssociationSelect where
  /-- The names of the associations from the root on. -/
  path : List String
  binding : Nat
  schema : String
  fields : List String
  deriving DecidableEq, Repr

/-- What a selection projects. -/
structure Projection where
  /-- The projected expressions in order. -/
  fields : List Expr := []
  shape : RowShape := .expr
  /-- The preloads from joins, with the fields projected for them. -/
  associations : List AssociationSelect := []
  /-- The paths of all preloads, parents first. -/
  preloads : List (List String) := []

/-- What has been projected so far. -/
structure Projected where
  fields : List Expr := []
  associations : List AssociationSelect := []

/-- A step of the expansion. -/
abbrev Projector := StateT Projected (Except PlanError)

mutual

/-- The paths of a preload and its children, parents first. -/
def Preload.paths (path : List String) : Preload → List (List String)
  | ⟨association, _, children⟩ =>
    (path ++ [association]) :: preloadPaths (path ++ [association]) children

/-- The paths of a list of preloads. -/
def preloadPaths (path : List String) : List Preload → List (List String)
  | [] => []
  | p :: ps => p.paths path ++ preloadPaths path ps

end

namespace Query

/-- The name under which a projected expression can be read from outside. -/
def exposedName? : Expr → Option String
  | .field _ name => some name
  | .selectedAs _ name => some name
  | _ => none

/-- The names that a normalized query exposes to the query around it. -/
def exposedNames (q : Query) : List String :=
  match q.clauses.select with
  | none => []
  | some select => select.fields.filterMap exposedName?

end Query

/-- A query level whose selection is expanded. -/
structure Selection where
  ctx : Context
  clauses : Clauses Query
  /-- The selection as messages show it. -/
  text : String

namespace Selection

/-- A fault of the selection. -/
def fail {α : Type} (s : Selection) (fault : Fault) : Projector α :=
  throw (.malformed ⟨.select, s.text⟩ fault)

/-- The schema of a binding, if it has one. -/
def schemaAt? (s : Selection) (ix : Nat) : Option Schema := do
  let source ← s.clauses.sources[ix]?
  let name ← source.schema?
  s.ctx.registry.lookup? name

/-- The declared source of a binding. -/
def sourceAt? (s : Selection) (ix : Nat) : Option (Source Query) :=
  if ix = 0 then s.clauses.root.map (·.source)
  else (s.clauses.joins.find? (·.ix == some ix)).bind (·.source)

/-- The query at a binding, if it is a subquery. -/
def subqueryAt? (s : Selection) (ix : Nat) : Option Query :=
  match s.sourceAt? ix with
  | some (.subquery query) => some query
  | _ => none

/-- Project fields of a binding. -/
def addFields (ix : Nat) (names : List String) : Projector Unit :=
  modify fun p => { p with fields := p.fields ++ names.map (Expr.field ix) }

/-- Project an expression as it is. -/
def addExpr (e : Expr) : Projector Unit := modify fun p => { p with fields := p.fields ++ [e] }

/-- Note a preload from a join. -/
def addAssociation (a : AssociationSelect) : Projector Unit :=
  modify fun p => { p with associations := p.associations ++ [a] }

/-- The fields of a binding as a whole: those that its schema loads, or that its subquery
exposes. -/
def bindingNames (s : Selection) (ix : Nat) : Projector (List String) :=
  match s.schemaAt? ix, s.subqueryAt? ix with
  | some schema, _ => pure schema.loadNames
  | none, some query => pure query.exposedNames
  | none, none => s.fail (.fieldsUnknown ix)

/-- The fields that a take names on a schema; they must be stored. -/
def takenNames (s : Selection) (schema : Schema) : List Take → Projector (List String)
  | [] => pure []
  | .association .. :: take => s.takenNames schema take
  | .field name :: take => do
    match schema.field? name with
    | some field => if field.isVirtual then s.fail (.virtualTake name schema.name)
    | none => s.fail (.fieldMissing name schema.name)
    let names ← s.takenNames schema take
    pure (name :: names)

/-- Project the fields that a take names, or all that the schema loads if it names none. -/
def takeFields (s : Selection) (ix : Nat) (schema : Schema) (take : List Take) :
    Projector (List String) := do
  let named ← s.takenNames schema take
  let names := if named.isEmpty then schema.loadNames else named
  addFields ix names
  pure names

/-- Project the associations that a take names.  Each must be preloaded from a join at its place in
the tree of preloads. -/
def takeAssociations (s : Selection) (preloads : List Preload) (path : List String) :
    List Take → Projector Unit
  | [] => pure ()
  | .field _ :: take => s.takeAssociations preloads path take
  | .association name nested :: take => do
    let joined := preloads.find? fun p => p.association == name && p.binding.isSome
    match joined with
    | some ⟨_, some ix, children⟩ =>
      match s.schemaAt? ix with
      | none => s.fail (.bindingWithoutSchema ix)
      | some schema =>
        let fields ← s.takeFields ix schema nested
        s.takeAssociations children (path ++ [name]) nested
        addAssociation ⟨path ++ [name], ix, schema.name, fields⟩
    | _ => s.fail (.takeNotPreloaded name)
    s.takeAssociations preloads path take

/-- Project a binding with a schema, narrowed by a take. -/
def take (s : Selection) (ix : Nat) (schema : Schema) (take : List Take) : Projector Unit := do
  let _ ← s.takeFields ix schema take
  s.takeAssociations s.clauses.preloads [] take

/-- The fields that a take names on a binding without schema. -/
def namesWithoutSchema (s : Selection) (ix : Nat) : List Take → Projector (List String)
  | [] => pure []
  | .association name _ :: _ => s.fail (.associationInMap name ix)
  | .field name :: take => do
    let names ← s.namesWithoutSchema ix take
    pure (name :: names)

/-- Project a binding as a map. -/
def takeMap (s : Selection) (ix : Nat) (take : List Take) : Projector Unit :=
  match s.schemaAt? ix with
  | some schema => s.take ix schema take
  | none => do
    let names ← if take.isEmpty then s.bindingNames ix else s.namesWithoutSchema ix take
    addFields ix names

/-- Project a node, given how to project its children: bindings by their fields, containers by what
they hold, and everything else as it is. -/
def flattenNode (s : Selection) : Node (Expr × Projector Unit) → Projector Unit
  | .binding ix => do
    let names ← s.bindingNames ix
    addFields ix names
  | .structOf ix take =>
    match s.schemaAt? ix with
    | some schema => s.take ix schema take
    | none => s.fail (.structWithoutSchema ix)
  | .mapOf ix take => s.takeMap ix take
  | .mapping entries => entries.forM fun entry => entry.2.2
  | .tuple items => items.forM (·.2)
  | .list items => items.forM (·.2)
  | n => addExpr ⟨n.map (·.1)⟩

/-- Project an expression. -/
def flatten (s : Selection) : Expr → Projector Unit := Expr.fold s.flattenNode

mutual

/-- Project a preload from a join, unless its binding has been projected, then its children. -/
def joinedPreload (s : Selection) (path : List String) : Preload → Projector Unit
  | ⟨association, binding, children⟩ => do
    let path := path ++ [association]
    if let some ix := binding then
      let projected ← get
      if !projected.associations.any (·.binding == ix) then
        match s.schemaAt? ix with
        | none => throw (.malformed ⟨.preload, dotted path⟩ (.bindingWithoutSchema ix))
        | some schema =>
          addFields ix schema.loadNames
          addAssociation ⟨path, ix, schema.name, schema.loadNames⟩
    s.joinedPreloads path children

/-- Project the preloads from joins that have not been projected. -/
def joinedPreloads (s : Selection) (path : List String) : List Preload → Projector Unit
  | [] => pure ()
  | p :: ps => do
    s.joinedPreload path p
    s.joinedPreloads path ps

end

/-- What the rows of a selection are. -/
def shape (s : Selection) : Expr → RowShape
  | .binding ix | .structOf ix _ =>
    match s.schemaAt? ix with
    | some schema => .struct ix schema.name
    | none => .map ix
  | .mapOf ix _ => .map ix
  | _ => .expr

/-- Project an expression and, if it includes the root, the preloads from joins. -/
def expand (s : Selection) (e : Expr) : Projector Unit := do
  s.flatten e
  if e.selectsRoot then s.joinedPreloads [] s.clauses.preloads

end Selection

namespace Clauses

/-- Without a selection the rows are those of `from`, which must have a schema or be a subquery. -/
def checkSelectable (ctx : Context) (c : Clauses Query) : Except PlanError Unit :=
  let s : Selection := ⟨ctx, c, "nil"⟩
  if c.select.isNone && (s.schemaAt? 0).isNone && c.sources.head? != some .subquery then
    .error (.malformed ⟨.select, "nil"⟩ .nothingToSelect)
  else .ok ()

/-- Fill in the selection of a level and describe its rows. -/
def project (ctx : Context) (c : Clauses Query) :
    Except PlanError (Clauses Query × Projection) := do
  let expr := (c.select.map (·.expr)).getD (.binding 0)
  let s : Selection := ⟨ctx, c, expr.render⟩
  c.checkSelectable ctx
  let ((), projected) ← (s.expand expr).run {}
  .ok
    ({ c with select := some { expr, fields := projected.fields } },
      { fields := projected.fields
        shape := s.shape expr
        associations := projected.associations
        preloads := preloadPaths [] c.preloads })

end Clauses

end QueryPlanner
