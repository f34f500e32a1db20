import QueryPlanner.Expr.Walk
import QueryPlanner.Plan.Context

/-!
# Checking preloads

A preload names an association of the schema it hangs off.  One that is read from a join needs the
binding of that join to hold the schema that the association leads to.

* `Context.preloadTarget` — the schema that an association leads to, chains followed
* `Clauses.checkPreloads` — all preloads of a level
-/

namespace QueryPlanner

/-- The number of chains nested in one another from which on they are taken for a cycle. -/
def maxChainDepth : Nat := 32

/-- The schemas that the associations of a chain lead to in turn; nothing where the last one leads
to a table without schema. -/
def followChain (site : Site) (follow : Schema → String → Except PlanError (Option Schema)) :
    Option Schema → List String → Except PlanError (Option Schema)
  | current, [] => .ok current
  | none, hop :: _ => .error (.malformed site (.hopFromTable hop))
  | some owner, hop :: hops => do
    let next ← follow owner hop
    followChain site follow next hops

/-- Why a schema has no association of a name. -/
def missingAssociation (schema : Schema) (name : String) : Fault :=
  if (schema.field? name).isSome then .notAnAssociation name schema.name
  else .associationMissing schema.name name

namespace Context

/-- The schema that an association leads to, within `depth` nested chains; nothing if it leads to a
table without schema. -/
def targetWithin (ctx : Context) (site : Site) :
    Nat → Schema → String → Except PlanError (Option Schema)
  | 0, _, name => .error (.malformed site (.cyclicThrough name))
  | depth + 1, schema, name =>
    match schema.association? name with
    | none => .error (.malformed site (missingAssociation schema name))
    | some association =>
      match association.kind with
      | .through chain => followChain site (ctx.targetWithin site depth) (some schema) chain
      | _ =>
        match association.related with
        | .schema related => some <$> ctx.schema site related
        | .table _ => .ok none

/-- The schema that an association leads to; nothing if it leads to a table without schema. -/
def preloadTarget (ctx : Context) (site : Site) (schema : Schema) (name : String) :
    Except PlanError (Option Schema) :=
  ctx.targetWithin site (maxChainDepth + 1) schema name

end Context

/-- Names joined by dots: the path of a preload in messages. -/
def dotted (path : List String) : String := String.intercalate "." path

/-- A binding that a preload is read from holds the schema that the association leads to. -/
def checkHolds (sources : List BoundSource) (site : Site) (association : String)
    (related : Option Schema) (ix : Nat) : Except PlanError Unit :=
  let held := sources[ix]?.bind (·.schema?)
  let expected := related.map (·.name)
  if held.isNone || held != expected then
    .error (.malformed site (.preloadMismatch association ix (expected.getD "nil")))
  else .ok ()

mutual

/-- Check a preload that hangs off `schema` at the end of `path`, then its children. -/
def checkPreload (ctx : Context) (sources : List BoundSource) (schema : Schema)
    (path : List String) : Preload → Except PlanError Unit
  | ⟨association, binding, children⟩ => do
    let path := path ++ [association]
    let site : Site := ⟨.preload, dotted path⟩
    let related ← ctx.preloadTarget site schema association
    if let some ix := binding then checkHolds sources site association related ix
    match related with
    | some related => checkPreloadList ctx sources related path children
    | none =>
      if children.isEmpty then .ok ()
      else .error (.malformed site (.preloadThroughTable association))

/-- Check the preloads that hang off one schema. -/
def checkPreloadList (ctx : Context) (sources : List BoundSource) (schema : Schema)
    (path : List String) : List Preload → Except PlanError Unit
  | [] => .ok ()
  | p :: ps => do
    checkPreload ctx sources schema path p
    checkPreloadList ctx sources schema path ps

end

/-- Binding 0 as a whole. -/
def Expr.isRoot : Expr → Bool
  | .binding 0 | .structOf 0 _ | .mapOf 0 _ => true
  | _ => false

/-- Whether a selection includes binding 0 as a whole. -/
def Expr.selectsRoot (e : Expr) : Bool := e.any isRoot

/-- Check the preloads of a level: the rows of `from` must be selected and have a schema. -/
def Clauses.checkPreloads {σ : Type} (ctx : Context) (c : Clauses σ) : Except PlanError Unit :=
  match c.preloads with
  | [] => .ok ()
  | first :: _ => do
    let site : Site := ⟨.preload, first.association⟩
    if let some select := c.select then
      if !select.expr.selectsRoot then throw (.malformed site .rootNotSelected)
    match c.sources.head?.bind (·.schema?) with
    | none => throw (.malformed site .preloadWithoutSchema)
    | some name =>
      let root ← ctx.schema site name
      checkPreloadList ctx c.sources root [] c.preloads

end QueryPlanner
