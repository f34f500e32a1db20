import QueryPlanner.Expr.Basic

/-!
# The clauses of one query level

A query level is its clauses, with anything in the place of the queries nested in them: the queries
themselves, or what a pass makes of them.

* `Clauses.map`, `Clauses.mapM` — the level with each nested query replaced
* `Clauses.nested` — the nested queries of a level
-/

namespace QueryPlanner

universe u v

/-- Where the rows of a binding come from. -/
inductive Source (σ : Type u) where
  /-- A table without schema. -/
  | table (name : String)
  /-- A table with a registered schema. -/
  | schema (table schema : String)
  | subquery (query : σ)
  | fragment (parts : List (Part Expr))

/-- The `from` clause. -/
structure FromClause (σ : Type u) where
  source : Source σ
  /-- The table prefix written on this source. -/
  tablePrefix : Option String := none

/-- A source as the planner bound it; binding `i` is at position `i`. -/
inductive BoundSource where
  | table (name : String) (schema : Option String) (tablePrefix : Option String)
  | subquery
  | fragment
  deriving DecidableEq, Repr, Inhabited

namespace BoundSource

/-- The schema that a bound table is read with. -/
def schema? : BoundSource → Option String
  | table _ schema _ => schema
  | _ => none

/-- The table prefix that a source was bound with. -/
def tablePrefix? : BoundSource → Option String
  | table _ _ tablePrefix => tablePrefix
  | _ => none

end BoundSource

/-- How a join treats rows without a partner. -/
inductive JoinQualifier where
  | inner
  | left
  | right
  | full
  | cross
  | innerLateral
  | leftLateral
  deriving DecidableEq, Repr

namespace JoinQualifier

/-- The written form of a qualifier. -/
def name : JoinQualifier → String
  | inner => "inner"
  | left => "left"
  | right => "right"
  | full => "full"
  | cross => "cross"
  | innerLateral => "inner_lateral"
  | leftLateral => "left_lateral"

/-- Joins whose source may refer to earlier bindings. -/
def isLateral : JoinQualifier → Bool
  | innerLateral | leftLateral => true
  | _ => false

/-- Joins that a preload may be read from: they keep every row of the left side that counts. -/
def allowsPreload : JoinQualifier → Bool
  | inner | left | innerLateral | leftLateral => true
  | _ => false

end JoinQualifier

/-- An association of the schema at an earlier binding. -/
structure AssociationRef where
  parent : Nat
  name : String
  deriving DecidableEq, Repr

/-- A join.  An association join has no source of its own until it is planned. -/
structure Join (σ : Type u) where
  qualifier : JoinQualifier
  source : Option (Source σ) := none
  on : Option Expr := none
  association : Option AssociationRef := none
  tablePrefix : Option String := none
  /-- The binding, assigned by the planner. -/
  ix : Option Nat := none

/-- How a condition combines with the conditions before it. -/
inductive Connective where
  | and
  | or
  deriving DecidableEq, Repr

/-- The written form of a connective. -/
def Connective.name : Connective → String
  | and => "and"
  | or => "or"

/-- An entry of `where` or `having`. -/
structure Condition where
  connective : Connective
  expr : Expr

/-- An entry of `order_by`. -/
inductive OrderBy where
  | items (items : List (Ordered Expr))
  /-- An interpolated list of fields of binding 0. -/
  | pinned (fields : List (Direction × String))

/-- An entry of `group_by`. -/
inductive GroupBy where
  | exprs (exprs : List Expr)
  /-- An interpolated list of fields of binding 0. -/
  | pinned (fields : List String)

/-- The `select` clause; its fields are filled in by normalization. -/
structure Select where
  expr : Expr
  fields : List Expr := []

/-- The `distinct` clause. -/
inductive Distinct where
  | all
  | on (items : List (Ordered Expr))

/-- What an update does to a field. -/
inductive UpdateOp where
  | set
  | inc
  | push
  | pull
  deriving DecidableEq, Repr

/-- The written form of an update. -/
def UpdateOp.name : UpdateOp → String
  | set => "set"
  | inc => "inc"
  | push => "push"
  | pull => "pull"

/-- An entry of `update`. -/
structure Update where
  op : UpdateOp
  fields : List (String × Expr)

/-- A set operation. -/
inductive SetOp where
  | union
  | unionAll
  | except
  | exceptAll
  | intersect
  | intersectAll
  deriving DecidableEq, Repr

/-- The written form of a set operation. -/
def SetOp.name : SetOp → String
  | union => "union"
  | unionAll => "union_all"
  | except => "except"
  | exceptAll => "except_all"
  | intersect => "intersect"
  | intersectAll => "intersect_all"

/-- A set operation with another query. -/
structure Combination (σ : Type u) where
  op : SetOp
  query : σ

/-- The body of a common table expression. -/
inductive CteBody (σ : Type u) where
  | query (query : σ)
  | fragment (parts : List (Part Expr))

/-- A named common table expression. -/
structure Cte (σ : Type u) where
  name : String
  body : CteBody σ
  recursive : Bool

/-- An association to load with the rows: from a join if it names a binding, otherwise by a query
of its own. -/
structure Preload where
  association : String
  binding : Option Nat := none
  children : List Preload := []

/-- A row lock. -/
inductive Lock where
  | literal (text : String)
  | fragment (parts : List (Part Expr))

/-- The clauses of a query level with nested queries of type `σ`. -/
structure Clauses (σ : Type u) where
  root : Option (FromClause σ) := none
  joins : List (Join σ) := []
  wheres : List Condition := []
  groupBys : List GroupBy := []
  havings : List Condition := []
  orderBys : List OrderBy := []
  select : Option Select := none
  distinct : Option Distinct := none
  limit : Option Expr := none
  offset : Option Expr := none
  updates : List Update := []
  windows : List (String × Window Expr) := []
  combinations : List (Combination σ) := []
  ctes : List (Cte σ) := []
  preloads : List Preload := []
  lock : Option Lock := none
  /-- The table prefix for all sources of the level that have none of their own. -/
  queryPrefix : Option String := none
  /-- The bound sources, filled in by the planner. -/
  sources : List BoundSource := []

section

variable {σ : Type u} {τ : Type v}

/-- The query that a source nests. -/
def Source.nested : Source σ → List σ
  | subquery query => [query]
  | _ => []

/-- A source with its nested query replaced. -/
def Source.map (f : σ → τ) : Source σ → Source τ
  | table name => table name
  | schema name type => schema name type
  | subquery query => subquery (f query)
  | fragment parts => fragment parts

/-- The `from` clause with its nested query replaced. -/
def FromClause.map (f : σ → τ) (c : FromClause σ) : FromClause τ := ⟨c.source.map f, c.tablePrefix⟩

/-- A join with its nested query replaced. -/
def Join.map (f : σ → τ) (j : Join σ) : Join τ where
  qualifier := j.qualifier
  source := j.source.map (Source.map f)
  on := j.on
  association := j.association
  tablePrefix := j.tablePrefix
  ix := j.ix

/-- A set operation with its query replaced. -/
def Combination.map (f : σ → τ) (c : Combination σ) : Combination τ := ⟨c.op, f c.query⟩

/-- The query that the body of a common table expression nests. -/
def CteBody.nested : CteBody σ → List σ
  | query q => [q]
  | fragment _ => []

/-- The body of a common table expression with its nested query replaced. -/
def CteBody.map (f : σ → τ) : CteBody σ → CteBody τ
  | query q => query (f q)
  | fragment parts => fragment parts

/-- A common table expression with its nested query replaced. -/
def Cte.map (f : σ → τ) (c : Cte σ) : Cte τ := ⟨c.name, c.body.map f, c.recursive⟩

namespace Clauses

/-- The nested queries of a level: common table expressions, combinations, and the sources of
`from` and of the joins. -/
def nested (c : Clauses σ) : List σ :=
  c.ctes.flatMap (·.body.nested) ++ c.combinations.map (·.query) ++
    c.root.toList.flatMap (·.source.nested) ++
      c.joins.flatMap fun j => j.source.toList.flatMap Source.nested

/-- The level with each nested query replaced. -/
def map (f : σ → τ) (c : Clauses σ) : Clauses τ where
  root := c.root.map (FromClause.map f)
  joins := c.joins.map (Join.map f)
  wheres := c.wheres
  groupBys := c.groupBys
  havings := c.havings
  orderBys := c.orderBys
  select := c.select
  distinct := c.distinct
  limit := c.limit
  offset := c.offset
  updates := c.updates
  windows := c.windows
  combinations := c.combinations.map (Combination.map f)
  ctes := c.ctes.map (Cte.map f)
  preloads := c.preloads
  lock := c.lock
  queryPrefix := c.queryPrefix
  sources := c.sources

end Clauses

end

section

variable {σ τ : Type u} {m : Type u → Type v} [Monad m]

/-- A source with its nested query replaced, in a monad. -/
def Source.mapM (f : σ → m τ) : Source σ → m (Source τ)
  | table name => pure (table name)
  | schema name type => pure (schema name type)
  | subquery query => subquery <$> f query
  | fragment parts => pure (fragment parts)

/-- The `from` clause with its nested query replaced, in a monad. -/
def FromClause.mapM (f : σ → m τ) (c : FromClause σ) : m (FromClause τ) := do
  let source ← c.source.mapM f
  pure ⟨source, c.tablePrefix⟩

/-- A join with its nested query replaced, in a monad. -/
def Join.mapM (f : σ → m τ) (j : Join σ) : m (Join τ) := do
  let source ← match j.source with
    | none => pure none
    | some source => some <$> source.mapM f
  pure
    { qualifier := j.qualifier
      source
      on := j.on
      association := j.association
      tablePrefix := j.tablePrefix
      ix := j.ix }

/-- A set operation with its query replaced, in a monad. -/
def Combination.mapM (f : σ → m τ) (c : Combination σ) : m (Combination τ) := do
  let query ← f c.query
  pure ⟨c.op, query⟩

/-- A common table expression with its nested query replaced, in a monad. -/
def Cte.mapM (f : σ → m τ) (c : Cte σ) : m (Cte τ) := do
  let body ← match c.body with
    | .query q => CteBody.query <$> f q
    | .fragment parts => pure (.fragment parts)
  pure ⟨c.name, body, c.recursive⟩

/-- The level with each nested query replaced, in the order of `nested`. -/
def Clauses.mapM (f : σ → m τ) (c : Clauses σ) : m (Clauses τ) := do
  let ctes ← c.ctes.mapM (Cte.mapM f)
  let combinations ← c.combinations.mapM (Combination.mapM f)
  let root ← match c.root with
    | none => pure none
    | some root => some <$> root.mapM f
  let joins ← c.joins.mapM (Join.mapM f)
  pure
    { root
      joins
      wheres := c.wheres
      groupBys := c.groupBys
      havings := c.havings
      orderBys := c.orderBys
      select := c.select
      distinct := c.distinct
      limit := c.limit
      offset := c.offset
      updates := c.updates
      windows := c.windows
      combinations
      ctes
      preloads := c.preloads
      lock := c.lock
      queryPrefix := c.queryPrefix
      sources := c.sources }

end

end QueryPlanner
