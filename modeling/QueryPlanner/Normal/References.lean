import QueryPlanner.Expr.Render
import QueryPlanner.Expr.Walk
import QueryPlanner.Plan.Context
import QueryPlanner.Query.Basic
import QueryPlanner.Query.Render

/-!
# Checking references and dumping literals

Every binding, field, alias and window that an expression names has to exist, and fields have to
be stored.  On the way, a literal compared with a field, or assigned to one, is put into the stored
form of the field's type.

* `References.check` — an expression
* `Clauses.checkReferences` — a level, clause by clause
-/

namespace QueryPlanner

/-- What the names in an expression refer to. -/
structure References where
  ctx : Context
  sources : List BoundSource
  /-- The windows that the level declares. -/
  windows : List String
  /-- The aliases of its selection. -/
  aliases : List String
  site : Site

/-- A checked expression.  If it is a list tested for membership against a field of a given type,
its literals are dumped with that type. -/
abbrev Checked := Option FieldType → Except PlanError Expr

namespace References

/-- A fault at the place of the expression. -/
def fail {α : Type} (r : References) (fault : Fault) : Except PlanError α :=
  .error (.malformed r.site fault)

/-- The source of a binding. -/
def source (r : References) (ix : Nat) : Except PlanError BoundSource :=
  match r.sources[ix]? with
  | some source => .ok source
  | none => r.fail (.unknownBinding ix)

/-- The type of a stored field; none on a source without schema. -/
def fieldType (r : References) (ix : Nat) (name : String) :
    Except PlanError (Option FieldType) := do
  let source ← r.source ix
  match source.schema? with
  | none => .ok none
  | some schemaName =>
    let schema ← r.ctx.schema r.site schemaName
    match schema.field? name with
    | some field =>
      if field.isVirtual then r.fail (.virtualReference name schemaName)
      else .ok (some field.type)
    | none => r.fail (.fieldMissing name schemaName)

/-- The stored form of a literal; null stays null. -/
def dump (r : References) (value : Value) (type : FieldType) : Except PlanError Value :=
  if value.isNull then .ok .null
  else
    match r.ctx.conversions.dump type value with
    | .ok stored => .ok stored
    | .error _ => .error (.dump r.site value type r.ctx.operation)

/-- An operand of a comparison: a literal opposite a typed field is dumped. -/
def checkOperand (r : References) (side other : Expr × Checked) : Except PlanError Expr :=
  match side.1, other.1 with
  | .literal value, .field ix name => do
    match ← r.fieldType ix name with
    | some type =>
      let stored ← r.dump value type
      .ok (.literal stored)
    | none => side.2 none
  | _, _ => side.2 none

/-- An item of a list: a literal tested against a typed field is dumped. -/
def checkItem (r : References) (type : Option FieldType) (item : Expr × Checked) :
    Except PlanError Expr :=
  match item.1, type with
  | .literal value, some type => do
    let stored ← r.dump value type
    .ok (.literal stored)
  | _, _ => item.2 none

/-- A node with its children checked on their own. -/
def checkChildren (n : Node (Expr × Checked)) : Except PlanError Expr := do
  let n ← n.mapM fun child => child.2 none
  .ok ⟨n⟩

/-- A membership test: a list tested against a field is checked with the type of the field. -/
def checkMembership (r : References) (left right : Expr × Checked) : Except PlanError Expr :=
  match left.1, right.1 with
  | .field ix name, .list _ => do
    let type ← r.fieldType ix name
    let items ← right.2 type
    .ok (.isIn left.1 items)
  | _, _ => checkChildren (.isIn left right)

/-- A node, given how to check its children. -/
def checkNode (r : References) : Node (Expr × Checked) → Checked
  | .field ix name, _ => do
    let _ ← r.fieldType ix name
    .ok (.field ix name)
  | .binding ix, _ => do
    let _ ← r.source ix
    .ok (.binding ix)
  | .structOf ix take, _ => do
    let _ ← r.source ix
    .ok (.structOf ix take)
  | .mapOf ix take, _ => do
    let _ ← r.source ix
    .ok (.mapOf ix take)
  | .selectedRef name, _ =>
    if r.aliases.contains name then .ok (.selectedRef name) else r.fail (.aliasMissing name)
  | .windowed inner (.named name), _ =>
    if r.windows.contains name then checkChildren (.windowed inner (.named name))
    else r.fail (.windowMissing name)
  | .binary op left right, _ =>
    if op.isComparison then do
      let leftChecked ← r.checkOperand left right
      let rightChecked ← r.checkOperand right left
      .ok (.binary op leftChecked rightChecked)
    else checkChildren (.binary op left right)
  | .isIn left right, _ => r.checkMembership left right
  | .list items, type => do
    let items ← items.mapM (r.checkItem type)
    .ok (.list items)
  | n, _ => checkChildren n

/-- Check an expression and dump the literals that it compares with fields. -/
def check (r : References) (e : Expr) : Except PlanError Expr := Expr.fold r.checkNode e none

/-- Check the parts of a fragment. -/
def checkParts (r : References) (parts : List (Part Expr)) :
    Except PlanError (List (Part Expr)) :=
  parts.mapM (Part.mapM r.check)

/-- Check what is assigned to a field; a literal is dumped with the type of the field. -/
def checkAssigned (r : References) (type : Option FieldType) (e : Expr) : Except PlanError Expr :=
  match e, type with
  | .literal value, some type => do
    let stored ← r.dump value type
    .ok (.literal stored)
  | _, _ => r.check e

end References

namespace Clauses

/-- The aliases that a selection declares. -/
def aliases {σ : Type} (c : Clauses σ) : List String :=
  match c.select with
  | none => []
  | some select => select.expr.walk.filterMap fun
    | .selectedAs _ name => some name
    | _ => none

/-- What the names in an expression of a clause refer to. -/
def references {σ : Type} (ctx : Context) (c : Clauses σ) (clause : Clause) (text : String) :
    References :=
  ⟨ctx, c.sources, c.windows.map (·.1), c.aliases, ⟨clause, text⟩⟩

/-- Check an expression that messages show as a whole. -/
def checkTop {σ : Type} (ctx : Context) (c : Clauses σ) (clause : Clause) (e : Expr) :
    Except PlanError Expr :=
  (c.references ctx clause e.render).check e

/-- Check the fragment that a source may be. -/
def checkSource {σ : Type} (r : References) : Source σ → Except PlanError (Source σ)
  | .fragment parts => .fragment <$> r.checkParts parts
  | source => .ok source

/-- Check the `from` clause. -/
def checkRoot {σ : Type} (ctx : Context) (c : Clauses σ) (root : FromClause σ) :
    Except PlanError (FromClause σ) := do
  let source ← checkSource (c.references ctx .fromSource root.source.render) root.source
  .ok { root with source }

/-- Check a join: its source, then its condition. -/
def checkJoin {σ : Type} (ctx : Context) (c : Clauses σ) (join : Join σ) :
    Except PlanError (Join σ) := do
  let r := c.references ctx .join join.render
  let source ← join.source.mapM (checkSource r)
  let on ← join.on.mapM r.check
  .ok { join with source, on }

/-- Check an entry of `where` or `having`. -/
def checkCondition {σ : Type} (ctx : Context) (c : Clauses σ) (clause : Clause)
    (condition : Condition) : Except PlanError Condition := do
  let expr ← c.checkTop ctx clause condition.expr
  .ok { condition with expr }

/-- Check the items of an ordering, each of which messages show with its direction. -/
def checkItems {σ : Type} (ctx : Context) (c : Clauses σ) (clause : Clause)
    (items : List (Ordered Expr)) : Except PlanError (List (Ordered Expr)) :=
  items.mapM fun item => item.mapM (c.references ctx clause item.render).check

/-- Check the `select` clause. -/
def checkSelect {σ : Type} (ctx : Context) (c : Clauses σ) (select : Select) :
    Except PlanError Select := do
  let expr ← c.checkTop ctx .select select.expr
  .ok { select with expr }

/-- Check the `distinct` clause. -/
def checkDistinct {σ : Type} (ctx : Context) (c : Clauses σ) :
    Distinct → Except PlanError Distinct
  | .all => .ok .all
  | .on items => .on <$> c.checkItems ctx .distinct items

/-- Check an entry of `group_by`. -/
def checkGroupBy {σ : Type} (ctx : Context) (c : Clauses σ) : GroupBy → Except PlanError GroupBy
  | .exprs exprs => .exprs <$> exprs.mapM (c.checkTop ctx .groupBy)
  | .pinned names => .ok (.pinned names)

/-- Check an entry of `order_by`. -/
def checkOrderBy {σ : Type} (ctx : Context) (c : Clauses σ) : OrderBy → Except PlanError OrderBy
  | .items items => .items <$> c.checkItems ctx .orderBy items
  | .pinned names => .ok (.pinned names)

/-- Check a declared window, which messages show by its name. -/
def checkWindow {σ : Type} (ctx : Context) (c : Clauses σ) (declared : String × Window Expr) :
    Except PlanError (String × Window Expr) := do
  let window ← declared.2.mapM (c.references ctx .windows declared.1).check
  .ok (declared.1, window)

/-- Check the lock. -/
def checkLock {σ : Type} (ctx : Context) (c : Clauses σ) : Lock → Except PlanError Lock
  | .literal text => .ok (.literal text)
  | .fragment parts => .fragment <$> (c.references ctx .lock "fragment").checkParts parts

/-- The type that an update assigns with, if the field has one: pushed and pulled are elements. -/
def assignedType (op : UpdateOp) (type : Option FieldType) : Option FieldType :=
  match op with
  | .set | .inc => type
  | .push | .pull => type.bind (·.element?)

/-- Check one assignment of an update. -/
def checkAssignment {σ : Type} (ctx : Context) (c : Clauses σ) (op : UpdateOp)
    (field : String × Expr) : Except PlanError (String × Expr) := do
  let r := c.references ctx .update (field.1 ++ ": " ++ field.2.render)
  let type ← r.fieldType 0 field.1
  let expr ← r.checkAssigned (assignedType op type) field.2
  .ok (field.1, expr)

/-- Check an entry of `update`. -/
def checkUpdate {σ : Type} (ctx : Context) (c : Clauses σ) (u : Update) :
    Except PlanError Update := do
  let fields ← u.fields.mapM (c.checkAssignment ctx u.op)
  .ok { u with fields }

/-- Check the references of a level, clause by clause.  Fragments in place of common table
expressions are passed on as they are. -/
def checkReferences {σ : Type} (ctx : Context) (c : Clauses σ) : Except PlanError (Clauses σ) := do
  let root ← c.root.mapM (c.checkRoot ctx)
  let joins ← c.joins.mapM (c.checkJoin ctx)
  let select ← c.select.mapM (c.checkSelect ctx)
  let distinct ← c.distinct.mapM (c.checkDistinct ctx)
  let wheres ← c.wheres.mapM (c.checkCondition ctx .filter)
  let havings ← c.havings.mapM (c.checkCondition ctx .having)
  let groupBys ← c.groupBys.mapM (c.checkGroupBy ctx)
  let windows ← c.windows.mapM (c.checkWindow ctx)
  let orderBys ← c.orderBys.mapM (c.checkOrderBy ctx)
  let limit ← c.limit.mapM (c.checkTop ctx .limit)
  let offset ← c.offset.mapM (c.checkTop ctx .offset)
  let lock ← c.lock.mapM (c.checkLock ctx)
  let updates ← c.updates.mapM (c.checkUpdate ctx)
  .ok { c with
    root, joins, select, distinct, wheres, havings, groupBys, windows, orderBys, limit, offset,
    lock, updates }

end Clauses

end QueryPlanner
