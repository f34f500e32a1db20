import QueryPlanner.Expr.Builder
import QueryPlanner.Expr.Fragment
import QueryPlanner.Plan.Context
import QueryPlanner.Plan.Route
import QueryPlanner.Query.Render

/-!
# Binding the sources of a query level

Binding 0 is the `from` source and the declared joins take 1, 2, … in turn.  An association join
becomes a block of joins, one for each hop: the last keeps the declared binding, every other one
gets the next binding that is still free.  Joins stand in the order in which the hops are made, so
that a join refers only to bindings introduced before it.  A block is made of a whole route at once;
following the association and binding each table as it is met makes the same block, which is shown
of `Clauses.resolveExpanding`.

* `Clauses.resolve` — the bound sources and the joins of a level
* `placeHops` — the joins of a block
-/

namespace QueryPlanner

variable {σ : Type}

/-- The sources and joins of a level, bound. -/
structure Bindings (σ : Type) where
  /-- The joins in execution order, each with its binding. -/
  joins : List (Join σ)
  /-- The source of each binding. -/
  sources : List BoundSource
  /-- The declared condition of each association join, by its binding.  It joins the condition that
  the association makes only later, so that an interpolated condition is still seen as a whole. -/
  conditions : List (Nat × Expr)

/-- The bindings made so far. -/
structure Arena (σ : Type) where
  /-- The least binding that is not taken. -/
  next : Nat
  /-- The sources bound so far. -/
  bound : List (Nat × BoundSource)
  joins : List (Join σ)
  conditions : List (Nat × Expr)

/-- The condition that a filter puts on a binding. -/
def AssociationFilter.expr (ix : Nat) (f : AssociationFilter) : Expr :=
  let field := Expr.field ix f.field
  match f.condition with
  | .eq value => field.eq (.literal value)
  | .isNil => .isNil field
  | .notNil => .not (.isNil field)
  | .oneOf values => .isIn field (.list (values.map .literal))
  | .fragment text => .fragmentOf text (List.replicate (Expr.markers text) field)

/-- The condition of a hop: its keys are equal, and its filters hold of its target. -/
def Hop.condition (hop : Hop) (parent ix : Nat) : Expr :=
  hop.filters.foldl (fun e f => e.and (f.expr ix))
    ((Expr.field ix hop.relatedKey).eq (.field parent hop.ownerKey))

/-- The source that a hop joins. -/
def Hop.source (hop : Hop) : Source σ :=
  match hop.target.schema with
  | some schema => .schema hop.target.table schema.name
  | none => .table hop.target.table

/-- The prefix of the table that a hop joins. -/
def Hop.tablePrefix (hop : Hop) (ctx : Context) (queryPrefix joinPrefix : Option String) :
    Option String :=
  ctx.resolvePrefix joinPrefix hop.target.schema queryPrefix

/-- The join that a hop of `declared` makes from `parent` to the binding `ix`. -/
def Hop.join (hop : Hop) (ctx : Context) (queryPrefix : Option String) (declared : Join σ)
    (parent ix : Nat) : Join σ where
  qualifier := declared.qualifier
  source := some hop.source
  on := some (hop.condition parent ix)
  association := hop.association.map fun name => ⟨parent, name⟩
  tablePrefix := hop.tablePrefix ctx queryPrefix declared.tablePrefix
  ix := some ix

/-- The bound source of a hop. -/
def Hop.bound (hop : Hop) (ctx : Context) (queryPrefix joinPrefix : Option String) :
    BoundSource :=
  .table hop.target.table (hop.target.schema.map (·.name))
    (hop.tablePrefix ctx queryPrefix joinPrefix)

/-- The bindings of a block of hops: each with the binding it starts from.  The last hop gets
`final`, those before it `fresh`, `fresh + 1`, … -/
def placeHops : (parent fresh final : Nat) → List Hop → List (Nat × Nat × Hop)
  | _, _, _, [] => []
  | parent, _, final, [hop] => [(parent, final, hop)]
  | parent, fresh, final, hop :: rest =>
    (parent, fresh, hop) :: placeHops fresh (fresh + 1) final rest

/-- A hop that others follow gets the next free binding. -/
theorem placeHops_cons_cons (parent fresh final : Nat) (hop hop' : Hop) (rest : List Hop) :
    placeHops parent fresh final (hop :: hop' :: rest) =
      (parent, fresh, hop) :: placeHops fresh (fresh + 1) final (hop' :: rest) := by
  rw [placeHops]
  simp

/-- The bound source of a declared source. -/
def Source.bind (ctx : Context) (queryPrefix clausePrefix : Option String) (clause : Clause)
    (s : Source σ) : Except PlanError BoundSource :=
  match s with
  | .table name => .ok (.table name none (ctx.resolvePrefix clausePrefix none queryPrefix))
  | .schema tableName schemaName => do
    let schema ← ctx.schema ⟨clause, s.render⟩ schemaName
    let resolved := ctx.resolvePrefix clausePrefix (some schema) queryPrefix
    .ok (.table tableName (some schemaName) resolved)
  | .subquery _ => .ok .subquery
  | .fragment _ => .ok .fragment

namespace Arena

/-- The schema of a binding that an association hangs off. -/
def schemaAt (a : Arena σ) (ctx : Context) (site : Site) (ix : Nat) : Except PlanError Schema :=
  match a.bound.lookup ix with
  | some source =>
    match source.schema? with
    | some name => ctx.schema site name
    | none => .error (.malformed site (.noSchemaToFollow ix))
  | none => .error (.malformed site (.unknownBinding ix))

/-- Bind a join with a source of its own. -/
def bindExplicit (a : Arena σ) (ctx : Context) (queryPrefix : Option String) (ix : Nat)
    (join : Join σ) : Except PlanError (Arena σ) :=
  match join.source with
  | none => .error (.malformed ⟨.join, join.render⟩ .joinWithoutTarget)
  | some source => do
    let bound ← source.bind ctx queryPrefix join.tablePrefix .join
    .ok { a with
      bound := a.bound ++ [(ix, bound)]
      joins := a.joins ++ [{ join with ix := some ix }] }

/-- Add the joins and bound sources of a block of hops. -/
def addHops (a : Arena σ) (ctx : Context) (queryPrefix : Option String) (parent ix : Nat)
    (join : Join σ) (hops : List Hop) : Arena σ :=
  let placed := placeHops parent a.next ix hops
  { next := a.next + (hops.length - 1)
    bound := a.bound ++ placed.map fun (_, ix, hop) =>
      (ix, hop.bound ctx queryPrefix join.tablePrefix)
    joins := a.joins ++ placed.map fun (parent, ix, hop) =>
      hop.join ctx queryPrefix join parent ix
    conditions := a.conditions ++ (join.on.toList.map fun on => (ix, on)) }

/-- Bind a join along an association. -/
def bindAssociation (a : Arena σ) (ctx : Context) (queryPrefix : Option String) (ix : Nat)
    (join : Join σ) (ref : AssociationRef) : Except PlanError (Arena σ) := do
  let site : Site := ⟨.join, join.render⟩
  if ix ≤ ref.parent then throw (.malformed site (.parentNotIntroduced ref.parent))
  let owner ← a.schemaAt ctx site ref.parent
  match owner.association? ref.name with
  | none => throw (.malformed site (.associationMissing owner.name ref.name))
  | some association =>
    match ctx.registry.route owner association with
    | .error fault => throw (.malformed site (fault.toFault a.next))
    | .ok hops => pure (a.addHops ctx queryPrefix ref.parent ix join hops)

/-- Bind a declared join. -/
def bindJoin (ctx : Context) (queryPrefix : Option String) (a : Arena σ)
    (declared : Nat × Join σ) : Except PlanError (Arena σ) :=
  match declared.2.association with
  | none => a.bindExplicit ctx queryPrefix declared.1 declared.2
  | some ref => a.bindAssociation ctx queryPrefix declared.1 declared.2 ref

/-- The source of each binding in turn. -/
def sources (a : Arena σ) : Except PlanError (List BoundSource) :=
  (List.range a.next).mapM fun ix =>
    match a.bound.lookup ix with
    | some source => .ok source
    | none => .error (.malformed ⟨.join, bindingText ix⟩ .neverBound)

end Arena

mutual

/-- A preload from a join needs one that keeps every row of the left side that counts. -/
def checkPreloadJoin (joins : List (Join σ)) : Preload → Except PlanError Unit
  | ⟨association, binding, children⟩ => do
    if let some join := binding.bind fun ix => joins.find? (·.ix == some ix) then
      if !join.qualifier.allowsPreload then
        throw (.malformed ⟨.preload, join.render⟩
          (.preloadQualifier association join.qualifier))
    checkPreloadJoins joins children

/-- The check for a list of preloads, each followed by its children. -/
def checkPreloadJoins (joins : List (Join σ)) : List Preload → Except PlanError Unit
  | [] => .ok ()
  | p :: ps => do
    checkPreloadJoin joins p
    checkPreloadJoins joins ps

end

namespace Clauses

/-- The declared joins with their bindings. -/
def declaredJoins (c : Clauses σ) : List (Nat × Join σ) :=
  c.joins.zipIdx.map fun (join, i) => (i + 1, join)

/-- Bind the `from` source and every join, unfolding association joins. -/
def resolve (ctx : Context) (c : Clauses σ) : Except PlanError (Bindings σ) := do
  let some root := c.root
    | throw (.malformed ⟨.fromSource, "nil"⟩ .noSource)
  let bound ← root.source.bind ctx c.queryPrefix root.tablePrefix .fromSource
  let start : Arena σ := ⟨c.joins.length + 1, [(0, bound)], [], []⟩
  let arena ← c.declaredJoins.foldlM (Arena.bindJoin ctx c.queryPrefix) start
  checkPreloadJoins arena.joins c.preloads
  let sources ← arena.sources
  pure ⟨arena.joins, sources, arena.conditions⟩

end Clauses

end QueryPlanner
