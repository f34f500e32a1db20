import QueryPlanner.Plan.Bindings
import QueryPlanner.Plan.Parameters
import QueryPlanner.Query.Basic

/-!
# Planning a query

A level is planned in four steps: it must have a source, its shape must be supported, its sources
are bound, and its clauses are read in the order of the operation.  Nested queries are planned where
the clause that holds them is read, and share the list of parameters.

* `Operation.clauseOrder` — the order of the clauses
* `Clauses.plan` — one level
* `Query.plan` — a query
-/

namespace QueryPlanner

/-- The order in which clauses are read.  A bulk write reads what it allows first; the others
follow, so that normalization can refuse them with their placeholders in place. -/
def Operation.clauseOrder : Operation → List Clause
  | .all =>
    [.withCte, .distinct, .select, .fromSource, .join, .filter, .groupBy, .having, .windows,
      .combination, .orderBy, .limit, .offset, .lock, .update]
  | .updateAll | .deleteAll =>
    [.withCte, .update, .fromSource, .join, .filter, .distinct, .select, .groupBy, .having,
      .windows, .combination, .orderBy, .limit, .offset, .lock]

/-- How a nested query is planned in a given context. -/
abbrev NestedPlan := Context → Binder Query

/-- A query level with its bound sources. -/
structure Level where
  ctx : Context
  clauses : Clauses NestedPlan
  bindings : Bindings NestedPlan

namespace Level

/-- The scope of an expression of a clause that messages show as `text`. -/
def scope (l : Level) (clause : Clause) (text : String) : Scope :=
  ⟨l.ctx, l.bindings.sources, ⟨clause, text⟩⟩

/-- Plan a nested query. -/
def bindNested (l : Level) (plan : NestedPlan) : Binder Query :=
  plan (l.ctx.nested l.clauses.queryPrefix)

/-- An expression that messages show as a whole. -/
def bindTop (l : Level) (clause : Clause) (expected : FieldType) (e : Expr) : Binder Expr :=
  (l.scope clause e.render).bindExpr e expected

/-- A whole condition about the binding `ix`. -/
def bindCondition (l : Level) (clause : Clause) (ix : Nat) (e : Expr) : Binder Expr :=
  (l.scope clause e.render).bindCondition ix e

/-- The parts of a fragment, which messages show as a whole. -/
def bindParts (l : Level) (clause : Clause) (parts : List (Part Expr)) :
    Binder (List (Part Expr)) :=
  let scope := l.scope clause (Expr.renderFragment parts)
  parts.mapM (Part.mapM fun e => scope.bindExpr e .any)

/-- The body of a common table expression. -/
def bindCte (l : Level) (cte : Cte NestedPlan) : Binder (Cte Query) := do
  let body ← match cte.body with
    | .query plan => CteBody.query <$> l.bindNested plan
    | .fragment parts => CteBody.fragment <$> l.bindParts .withCte parts
  pure ⟨cte.name, body, cte.recursive⟩

/-- A source. -/
def bindSource (l : Level) (clause : Clause) : Source NestedPlan → Binder (Source Query)
  | .table name => pure (.table name)
  | .schema table name => pure (.schema table name)
  | .subquery plan => .subquery <$> l.bindNested plan
  | .fragment parts => .fragment <$> l.bindParts clause parts

/-- The `from` clause. -/
def bindRoot (l : Level) (root : FromClause NestedPlan) : Binder (FromClause Query) := do
  let source ← l.bindSource .fromSource root.source
  pure ⟨source, root.tablePrefix⟩

/-- A join: its source, its condition, and the condition declared with its association, which is
added to the one that the association makes. -/
def bindJoin (l : Level) (join : Join NestedPlan) : Binder (Join Query) := do
  let ix := join.ix.getD 0
  let source ← match join.source with
    | some source => some <$> l.bindSource .join source
    | none => pure none
  let on ← match join.on with
    | some on => some <$> l.bindCondition .join ix on
    | none => pure none
  let declared ← match l.bindings.conditions.lookup ix with
    | some on => some <$> l.bindCondition .join ix on
    | none => pure none
  pure
    { qualifier := join.qualifier
      source
      on := Expr.conjunction? on declared
      association := join.association
      tablePrefix := join.tablePrefix
      ix := join.ix }

/-- The entries of `where` or `having`. -/
def bindConditions (l : Level) (clause : Clause) (conditions : List Condition) :
    Binder (List Condition) :=
  conditions.mapM fun c => do
    let expr ← l.bindCondition clause 0 c.expr
    pure ⟨c.connective, expr⟩

/-- The items of an ordering. -/
def bindItems (l : Level) (clause : Clause) (items : List (Ordered Expr)) :
    Binder (List (Ordered Expr)) :=
  items.mapM (Ordered.mapM (l.bindTop clause .any))

/-- An entry of `group_by`; interpolated names become fields of binding 0. -/
def bindGroupBy (l : Level) : GroupBy → Binder GroupBy
  | .exprs exprs => .exprs <$> exprs.mapM (l.bindTop .groupBy .any)
  | .pinned names => pure (.exprs (names.map (.field 0)))

/-- An entry of `order_by`; interpolated names become fields of binding 0. -/
def bindOrderBy (l : Level) : OrderBy → Binder OrderBy
  | .items items => .items <$> l.bindItems .orderBy items
  | .pinned names => pure (.items (names.map fun (direction, name) => ⟨direction, .field 0 name⟩))

/-- The `distinct` clause. -/
def bindDistinct (l : Level) : Distinct → Binder Distinct
  | .all => pure .all
  | .on items => .on <$> l.bindItems .distinct items

/-- A declared window. -/
def bindWindow (l : Level) (declared : String × Window Expr) : Binder (String × Window Expr) := do
  let window ← declared.2.mapM (l.bindTop .windows .any)
  pure (declared.1, window)

/-- A set operation. -/
def bindCombination (l : Level) (c : Combination NestedPlan) : Binder (Combination Query) := do
  let query ← l.bindNested c.query
  pure ⟨c.op, query⟩

/-- The type of what an update assigns to a field: pushed and pulled are the elements of arrays. -/
def updateType (op : UpdateOp) (type : FieldType) : FieldType :=
  match op with
  | .set | .inc => type
  | .push | .pull => type.element?.getD .any

/-- One assignment of an update. -/
def bindAssignment (l : Level) (op : UpdateOp) (field : String × Expr) :
    Binder (String × Expr) := do
  let scope := l.scope .update (op.name ++ ": [" ++ field.1 ++ ": " ++ field.2.render ++ "]")
  let type ← scope.fieldType 0 field.1
  let expr ← scope.bindExpr field.2 (updateType op type)
  pure (field.1, expr)

/-- An entry of `update`. -/
def bindUpdate (l : Level) (u : Update) : Binder Update := do
  let fields ← u.fields.mapM (l.bindAssignment u.op)
  pure ⟨u.op, fields⟩

/-- The lock. -/
def bindLock (l : Level) : Lock → Binder Lock
  | .literal text => pure (.literal text)
  | .fragment parts => .fragment <$> l.bindParts .lock parts

/-- What may be there, read if it is. -/
def bindOption {α β : Type} (f : α → Binder β) : Option α → Binder (Option β)
  | none => pure none
  | some a => some <$> f a

/-- The `select` clause; its fields are chosen by normalization. -/
def bindSelect (l : Level) (select : Select) : Binder Select := do
  let expr ← l.bindTop .select .any select.expr
  pure { expr }

/-- Read one clause into the planned level. -/
def bindClause (l : Level) (out : Clauses Query) : Clause → Binder (Clauses Query)
  | .withCte => do
    let ctes ← l.clauses.ctes.mapM l.bindCte
    pure { out with ctes }
  | .distinct => do
    let distinct ← bindOption l.bindDistinct l.clauses.distinct
    pure { out with distinct }
  | .select => do
    let select ← bindOption l.bindSelect l.clauses.select
    pure { out with select }
  | .fromSource => do
    let root ← bindOption l.bindRoot l.clauses.root
    pure { out with root }
  | .join => do
    let joins ← l.bindings.joins.mapM l.bindJoin
    pure { out with joins }
  | .filter => do
    let wheres ← l.bindConditions .filter l.clauses.wheres
    pure { out with wheres }
  | .groupBy => do
    let groupBys ← l.clauses.groupBys.mapM l.bindGroupBy
    pure { out with groupBys }
  | .having => do
    let havings ← l.bindConditions .having l.clauses.havings
    pure { out with havings }
  | .windows => do
    let windows ← l.clauses.windows.mapM l.bindWindow
    pure { out with windows }
  | .combination => do
    let combinations ← l.clauses.combinations.mapM l.bindCombination
    pure { out with combinations }
  | .orderBy => do
    let orderBys ← l.clauses.orderBys.mapM l.bindOrderBy
    pure { out with orderBys }
  | .limit => do
    let limit ← bindOption (l.bindTop .limit .integer) l.clauses.limit
    pure { out with limit }
  | .offset => do
    let offset ← bindOption (l.bindTop .offset .integer) l.clauses.offset
    pure { out with offset }
  | .lock => do
    let lock ← bindOption l.bindLock l.clauses.lock
    pure { out with lock }
  | .update => do
    let updates ← l.clauses.updates.mapM l.bindUpdate
    pure { out with updates }
  | .preload => pure out

/-- Read all clauses in the order of the operation. -/
def bind (l : Level) : Binder Query := do
  let start : Clauses Query :=
    { queryPrefix := l.clauses.queryPrefix
      preloads := l.clauses.preloads
      sources := l.bindings.sources }
  let planned ← l.ctx.operation.clauseOrder.foldlM l.bindClause start
  pure ⟨planned⟩

end Level

namespace Capabilities

/-- Whether joins of a qualifier are supported. -/
def supports (c : Capabilities) : JoinQualifier → Bool
  | .right => c.rightJoin
  | .full => c.fullOuterJoin
  | .innerLateral | .leftLateral => c.lateral
  | .inner | .left | .cross => true

end Capabilities

namespace Clauses

variable {σ : Type}

/-- Refuse the shapes that a database does not support: joins in order, recursion, declared windows,
locks. -/
def checkCapabilities (caps : Capabilities) (c : Clauses σ) : Except PlanError Unit := do
  if let some join := c.joins.find? (!caps.supports ·.qualifier) then
    throw (.malformed ⟨.join, join.render⟩ (.unsupportedJoin join.qualifier caps.name))
  if let some cte := c.ctes.find? (·.recursive) then
    if !caps.recursiveCte then
      throw (.malformed ⟨.withCte, cte.name⟩ (.unsupportedRecursion caps.name))
  if let some window := c.windows.head? then
    if !caps.namedWindows then
      throw (.malformed ⟨.windows, window.1⟩ (.unsupportedWindows caps.name))
  if c.lock.isSome && !caps.rowLocks then
    throw (.malformed ⟨.lock, "lock"⟩ (.unsupportedLocks caps.name))

/-- Plan a level, given how its nested queries are planned. -/
def plan (c : Clauses NestedPlan) (ctx : Context) : Binder Query := do
  if c.root.isNone then throw (.malformed ⟨.fromSource, "nil"⟩ .noSource)
  c.checkCapabilities ctx.capabilities
  let bindings ← c.resolve ctx
  Level.bind ⟨ctx, c, bindings⟩

end Clauses

/-- Plan a query, adding its parameters to those bound before. -/
def Query.plan : Query → NestedPlan := Query.fold Clauses.plan

end QueryPlanner
