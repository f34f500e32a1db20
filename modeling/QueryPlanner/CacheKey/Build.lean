import QueryPlanner.CacheKey.Basic
import QueryPlanner.Plan.Context
import QueryPlanner.Query.Basic

/-!
# The key of a planned query

The key lists the clauses that are present, each under its tag.  A literal compared with a field is
keyed in its stored form, so that spellings of one stored value share a key.  A range of
placeholders comes from an interpolated collection, whose length is data: a query with one has no
key.

* `Expr.key` — the node of an expression
* `Query.key` — the nodes of a query
-/

namespace QueryPlanner

/-- The stored form of a literal compared with a field of a binding, if it has one. -/
abbrev LiteralForm := Nat → String → Value → Option Value

/-- What an expression is compared with. -/
inductive Opposite where
  | nothing
  /-- It is an operand of a comparison with this expression. -/
  | operand (other : Expr)
  /-- It is the right side of a membership test of this expression. -/
  | collection (other : Expr)

/-- A keyed expression, given what it is compared with; nothing if its shape is data. -/
abbrev Keyed := Opposite → Option KeyNode

namespace Expr

/-- The stored form of a literal, if it is an operand opposite a field that gives it one. -/
def storedLiteral? (form : LiteralForm) (value : Value) : Opposite → Option Value
  | .operand (.field ix name) => form ix name value
  | _ => none

/-- What the items of a list are compared with: the left side of a membership test. -/
def itemOpposite : Opposite → Opposite
  | .collection other => .operand other
  | _ => .nothing

/-- A child on its own. -/
def plainKey (child : Expr × Keyed) : Option KeyNode := child.2 .nothing

mutual

/-- The fields that a binding is narrowed to. -/
def takeKey : Take → KeyNode
  | .field name => .atom name
  | .association name nested => .tagged name [.list (takeKeys nested)]

/-- The keys of a list of fields. -/
def takeKeys : List Take → List KeyNode
  | [] => []
  | t :: ts => takeKey t :: takeKeys ts

end

/-- The node of an order item. -/
def orderedKey (item : Ordered (Option KeyNode)) : Option KeyNode :=
  item.term.map fun term => .tagged item.direction.name [term]

/-- The node of a part of a fragment. -/
def partKey : Part (Option KeyNode) → Option KeyNode
  | .raw text => some (.atom text)
  | .term key => key

/-- The node of a fragment. -/
def fragmentKey (parts : List (Part (Option KeyNode))) : Option KeyNode :=
  (parts.mapM partKey).map (.tagged "fragment")

/-- The node of a window. -/
def windowKey (window : Window (Option KeyNode)) : Option KeyNode := do
  let partition ← window.partition.mapM id
  let order ← window.order.mapM orderedKey
  let frame ← match window.frame with
    | some parts => fragmentKey parts
    | none => some .null
  some (.list [.list partition, .list order, frame])

/-- The node of an expression over those of its children. -/
def keyNode (form : LiteralForm) : Node (Expr × Keyed) → Keyed
  | .field ix name, _ => some (.tagged "field" [.ofBinding ix, .atom name])
  | .binding ix, _ => some (.tagged "binding" [.ofBinding ix])
  | .literal value, opposite => some (.value ((storedLiteral? form value opposite).getD value))
  | .pin _, _ => some .param
  | .keywords _, _ => some .param
  | .param _, _ => some .param
  | .paramRange .., _ => none
  | .dynamic inner, _ => plainKey inner
  | .binary op left right, _ => do
    let compared := op.isComparison
    let leftKey ← left.2 (if compared then .operand right.1 else .nothing)
    let rightKey ← right.2 (if compared then .operand left.1 else .nothing)
    some (.tagged op.symbol [leftKey, rightKey])
  | .not inner, _ => (plainKey inner).map fun key => .tagged "not" [key]
  | .isNil inner, _ => (plainKey inner).map fun key => .tagged "is_nil" [key]
  | .isIn left right, _ => do
    let leftKey ← plainKey left
    let rightKey ← right.2 (.collection left.1)
    some (.tagged "in" [leftKey, rightKey])
  | .list items, opposite => do
    let keys ← items.mapM fun item => item.2 (itemOpposite opposite)
    some (.list keys)
  | .tuple items, _ => (items.mapM plainKey).map fun keys => .tagged "tuple" [.list keys]
  | .mapping entries, _ => do
    let keys ← entries.mapM fun entry => (plainKey entry.2).map fun key => .tagged entry.1 [key]
    some (.tagged "map" keys)
  | .call name arguments, _ =>
    (arguments.mapM plainKey).map fun keys => .tagged "call" (.atom name :: keys)
  | .typed inner type, _ =>
    (plainKey inner).map fun key => .tagged "type" [key, .atom type.render]
  | .windowed inner window, _ => do
    let windowNode ← match window with
      | .named name => some (.atom name)
      | .inline window => windowKey (window.map plainKey)
    let key ← plainKey inner
    some (.tagged "over" [key, windowNode])
  | .fragment parts, _ => fragmentKey (parts.map (Part.map plainKey))
  | .structOf ix take, _ => some (.tagged "struct" [.ofBinding ix, .list (takeKeys take)])
  | .mapOf ix take, _ => some (.tagged "map_of" [.ofBinding ix, .list (takeKeys take)])
  | .selectedAs inner name, _ =>
    (plainKey inner).map fun key => .tagged "selected_as" [key, .atom name]
  | .selectedRef name, _ => some (.tagged "selected_as" [.atom name])

/-- The node of an expression. -/
def key (form : LiteralForm) (e : Expr) : Option KeyNode := fold (keyNode form) e .nothing

end Expr

/-- The nodes of a query for an operation; nothing if its shape is data. -/
abbrev KeyedQuery := Operation → Option (List KeyNode)

mutual

/-- The node of a preload. -/
def Preload.key : Preload → KeyNode
  | ⟨association, binding, children⟩ =>
    .tagged association [.ofBinding? binding, .list (preloadKeys children)]

/-- The nodes of a list of preloads. -/
def preloadKeys : List Preload → List KeyNode
  | [] => []
  | p :: ps => p.key :: preloadKeys ps

end

namespace Clauses

/-- A clause under its tag; nothing of it in the key if it has no entries. -/
def clauseKey {α : Type} (tag : String) (entry : α → Option KeyNode) (entries : List α) :
    Option (List KeyNode) :=
  if entries.isEmpty then some []
  else (entries.mapM entry).map fun keys => [.tagged tag keys]

/-- The nodes of a fragment in a clause. -/
def partsKey (form : LiteralForm) (parts : List (Part Expr)) : Option KeyNode :=
  Expr.fragmentKey (parts.map (Part.map (Expr.key form)))

/-- The node of an ordering. -/
def itemsKey (form : LiteralForm) (items : List (Ordered Expr)) : Option KeyNode :=
  (items.mapM fun item => Expr.orderedKey (item.map (Expr.key form))).map .list

/-- The node of a source, given what it was bound to. -/
def sourceKey (form : LiteralForm) (bound : Option BoundSource) :
    Source KeyedQuery → Option KeyNode
  | .subquery query => (query .all).map fun nodes => .tagged "subquery" [.list nodes]
  | .fragment parts => partsKey form parts
  | .table name =>
    match bound with
    | some (.table table schema tablePrefix) =>
      some (.tagged "source" [.atom table, .ofOption schema, .ofOption tablePrefix])
    | _ => some (.tagged "source" [.atom name, .null])
  | .schema name schemaName =>
    match bound with
    | some (.table table schema tablePrefix) =>
      some (.tagged "source" [.atom table, .ofOption schema, .ofOption tablePrefix])
    | _ => some (.tagged "source" [.atom name, .atom schemaName])

/-- The node of a common table expression. -/
def cteKey (form : LiteralForm) (cte : Cte KeyedQuery) : Option KeyNode := do
  let body ← match cte.body with
    | .query query => (query .all).map .list
    | .fragment parts => partsKey form parts
  some (.tagged (if cte.recursive then "recursive_cte" else "cte") [.atom cte.name, body])

/-- The node of an update entry. -/
def updateKey (form : LiteralForm) (u : Update) : Option KeyNode := do
  let fields ← u.fields.mapM fun field =>
    (Expr.key form field.2).map fun key => .tagged field.1 [key]
  some (.tagged u.op.name fields)

/-- The node of the `distinct` clause. -/
def distinctKey (form : LiteralForm) : Distinct → Option KeyNode
  | .all => some (.value (.bool true))
  | .on items => itemsKey form items

/-- The node of a join. -/
def joinKey (form : LiteralForm) (sources : List BoundSource) (join : Join KeyedQuery) :
    Option KeyNode := do
  let bound := join.ix.bind fun ix => sources[ix]?
  let source ← match join.source with
    | some source => sourceKey form bound source
    | none => some .null
  let on ← match join.on with
    | some on => Expr.key form on
    | none => some (.value (.bool true))
  some (.tagged join.qualifier.name [.ofBinding? join.ix, source, on])

/-- The node of a `where` or `having` entry. -/
def conditionKey (form : LiteralForm) (c : Condition) : Option KeyNode :=
  (Expr.key form c.expr).map fun key => .tagged c.connective.name [key]

/-- The node of a `group_by` entry. -/
def groupByKey (form : LiteralForm) : GroupBy → Option KeyNode
  | .exprs exprs => (exprs.mapM (Expr.key form)).map .list
  | .pinned names => some (.list (names.map .atom))

/-- The node of an `order_by` entry. -/
def orderByKey (form : LiteralForm) : OrderBy → Option KeyNode
  | .items items => itemsKey form items
  | .pinned names =>
    some (.list (names.map fun (direction, name) => .tagged direction.name [.atom name]))

/-- The node of a declared window. -/
def declaredWindowKey (form : LiteralForm) (declared : String × Window Expr) : Option KeyNode :=
  (Expr.windowKey (declared.2.map (Expr.key form))).map fun key => .tagged declared.1 [key]

/-- The node of a set operation. -/
def combinationKey (c : Combination KeyedQuery) : Option KeyNode :=
  (c.query .all).map fun nodes => .tagged c.op.name [.list nodes]

/-- The node of a lock. -/
def lockKey (form : LiteralForm) : Lock → Option KeyNode
  | .literal text => some (.atom text)
  | .fragment parts => partsKey form parts

/-- The stored form of literals compared with fields of the sources of a level. -/
def literalForm (ctx : Context) (sources : List BoundSource) : LiteralForm :=
  fun ix name value => sources[ix]?.bind fun source => ctx.dumpLiteral? source name value

/-- The nodes of a level for an operation. -/
def key (ctx : Context) (c : Clauses KeyedQuery) (operation : Operation) :
    Option (List KeyNode) := do
  let form := literalForm ctx c.sources
  let ctes ← clauseKey "with_cte" (cteKey form) c.ctes
  let updates ← clauseKey "update" (updateKey form) c.updates
  let distinct ← clauseKey "distinct" (distinctKey form) c.distinct.toList
  let select ← clauseKey "select" (Expr.key form ·.expr) c.select.toList
  let root ← clauseKey "from" (sourceKey form c.sources.head? ·.source) c.root.toList
  let joins ← clauseKey "join" (joinKey form c.sources) c.joins
  let wheres ← clauseKey "where" (conditionKey form) c.wheres
  let groupBys ← clauseKey "group_by" (groupByKey form) c.groupBys
  let havings ← clauseKey "having" (conditionKey form) c.havings
  let windows ← clauseKey "windows" (declaredWindowKey form) c.windows
  let combinations ← clauseKey "combination" combinationKey c.combinations
  let orderBys ← clauseKey "order_by" (orderByKey form) c.orderBys
  let limit ← clauseKey "limit" (Expr.key form) c.limit.toList
  let offset ← clauseKey "offset" (Expr.key form) c.offset.toList
  let lock ← clauseKey "lock" (lockKey form) c.lock.toList
  let queryPrefix := c.queryPrefix.toList.map fun name => KeyNode.tagged "prefix" [.atom name]
  let preloads :=
    if c.preloads.isEmpty then [] else [KeyNode.tagged "preload" (preloadKeys c.preloads)]
  some (.atom operation.name :: queryPrefix ++ ctes ++ updates ++ distinct ++ select ++ root ++
    joins ++ wheres ++ groupBys ++ havings ++ windows ++ combinations ++ orderBys ++ limit ++
    offset ++ lock ++ preloads)

end Clauses

namespace Query

/-- The nodes of a query for an operation; nested queries are keyed as read. -/
def key (ctx : Context) : Query → KeyedQuery := fold (Clauses.key ctx)

/-- The cache key of a planned query. -/
def cacheKey (ctx : Context) (q : Query) (operation : Operation) : CacheKey :=
  match q.key ctx operation with
  | some nodes => .key nodes
  | none => .uncacheable

end Query

end QueryPlanner
