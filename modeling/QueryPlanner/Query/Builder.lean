import QueryPlanner.Query.Basic

/-!
# Building queries

Each function adds one clause to a query, or replaces it where a query has only one.
-/

namespace QueryPlanner

namespace Join

/-- A join with a source of its own. -/
def explicit (qualifier : JoinQualifier) (source : Source Query) (on : Option Expr) : Join Query :=
  { qualifier, source := some source, on }

/-- A join along an association of an earlier binding. -/
def along (qualifier : JoinQualifier) (parent : Nat) (name : String) : Join Query :=
  { qualifier, association := some ⟨parent, name⟩ }

end Join

namespace Query

/-- The query with its clauses changed. -/
def modify (q : Query) (f : Clauses Query → Clauses Query) : Query := ⟨f q.clauses⟩

/-- Read from a source, without a prefix of its own. -/
def withSource (q : Query) (source : Source Query) : Query :=
  q.modify ({ · with root := some { source } })

/-- A query on a bare table. -/
def ofTable (name : String) : Query := empty.withSource (.table name)

/-- A query on a table with a schema. -/
def ofSchema (table schema : String) : Query := empty.withSource (.schema table schema)

/-- Set the prefix of the `from` source, if there is one. -/
def fromPrefix (q : Query) (tablePrefix : String) : Query :=
  q.modify fun c => { c with root := c.root.map ({ · with tablePrefix := some tablePrefix }) }

/-- Add a join. -/
def join (q : Query) (j : Join Query) : Query :=
  q.modify fun c => { c with joins := c.joins ++ [j] }

/-- Add an inner join with a condition. -/
def innerJoin (q : Query) (source : Source Query) (on : Expr) : Query :=
  q.join (.explicit .inner source (some on))

/-- Add a left join with a condition. -/
def leftJoin (q : Query) (source : Source Query) (on : Expr) : Query :=
  q.join (.explicit .left source (some on))

/-- Add a join along an association. -/
def joinAssociation (q : Query) (qualifier : JoinQualifier) (parent : Nat) (name : String) :
    Query :=
  q.join (.along qualifier parent name)

/-- Add a `where` entry that must hold as well. -/
def filter (q : Query) (e : Expr) : Query :=
  q.modify fun c => { c with wheres := c.wheres ++ [⟨.and, e⟩] }

/-- Add a `where` entry that may hold instead. -/
def orFilter (q : Query) (e : Expr) : Query :=
  q.modify fun c => { c with wheres := c.wheres ++ [⟨.or, e⟩] }

/-- Add a `having` entry. -/
def having (q : Query) (e : Expr) : Query :=
  q.modify fun c => { c with havings := c.havings ++ [⟨.and, e⟩] }

/-- Add a `group_by` entry. -/
def groupBy (q : Query) (es : List Expr) : Query :=
  q.modify fun c => { c with groupBys := c.groupBys ++ [.exprs es] }

/-- Add an `order_by` entry. -/
def orderBy (q : Query) (items : List (Ordered Expr)) : Query :=
  q.modify fun c => { c with orderBys := c.orderBys ++ [.items items] }

/-- Select an expression. -/
def select (q : Query) (e : Expr) : Query := q.modify ({ · with select := some { expr := e } })

/-- Return distinct rows. -/
def distinct (q : Query) : Query := q.modify ({ · with distinct := some .all })

/-- Return at most so many rows. -/
def limit (q : Query) (e : Expr) : Query := q.modify ({ · with limit := some e })

/-- Skip so many rows. -/
def offset (q : Query) (e : Expr) : Query := q.modify ({ · with offset := some e })

/-- Add an `update` entry. -/
def update (q : Query) (op : UpdateOp) (fields : List (String × Expr)) : Query :=
  q.modify fun c => { c with updates := c.updates ++ [⟨op, fields⟩] }

/-- Declare a window. -/
def window (q : Query) (name : String) (w : Window Expr) : Query :=
  q.modify fun c => { c with windows := c.windows ++ [(name, w)] }

/-- Combine with another query. -/
def combine (q : Query) (op : SetOp) (other : Query) : Query :=
  q.modify fun c => { c with combinations := c.combinations ++ [⟨op, other⟩] }

/-- Add a common table expression. -/
def withCte (q : Query) (name : String) (body : Query) (recursive : Bool) : Query :=
  q.modify fun c => { c with ctes := c.ctes ++ [⟨name, .query body, recursive⟩] }

/-- Add a preload. -/
def preload (q : Query) (p : Preload) : Query :=
  q.modify fun c => { c with preloads := c.preloads ++ [p] }

/-- Lock the rows that are read. -/
def lock (q : Query) (text : String) : Query := q.modify ({ · with lock := some (.literal text) })

/-- Set the prefix of the query level. -/
def withPrefix (q : Query) (tablePrefix : String) : Query :=
  q.modify ({ · with queryPrefix := some tablePrefix })

/-- The number of bindings of a planned query. -/
def bindingCount (q : Query) : Nat := q.clauses.sources.length

end Query

end QueryPlanner
