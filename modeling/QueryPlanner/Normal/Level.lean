import QueryPlanner.Normal.Legality
import QueryPlanner.Normal.Projection
import QueryPlanner.Normal.References

/-!
# Normalizing a planned query

A planned level is checked against its operation, its nested queries are normalized, its references
are checked and its literals dumped, its preloads are checked, its selection is expanded, and empty
entries are dropped.

* `Clauses.normalize` — one level
* `Query.normalize` — a query
-/

namespace QueryPlanner

/-- A query normalized in a given context. -/
abbrev Normalized := Context → Except PlanError (Query × Projection)

/-- An `order_by` entry without items. -/
def OrderBy.isEmpty : OrderBy → Bool
  | .items ordered => ordered.isEmpty
  | .pinned _ => false

/-- A `group_by` entry without expressions. -/
def GroupBy.isEmpty : GroupBy → Bool
  | .exprs grouped => grouped.isEmpty
  | .pinned _ => false

namespace Clauses

/-- Drop the entries of `order_by` and `group_by` that hold nothing. -/
def prune {σ : Type} (c : Clauses σ) : Clauses σ :=
  { c with
    orderBys := c.orderBys.filter (!·.isEmpty)
    groupBys := c.groupBys.filter (!·.isEmpty) }

/-- Expand the selection for reading; a bulk write projects no rows. -/
def projectFor (ctx : Context) (c : Clauses Query) :
    Except PlanError (Clauses Query × Projection) :=
  match ctx.operation with
  | .all => c.project ctx
  | .updateAll | .deleteAll => .ok (c, {})

/-- Normalize a level, given how its nested queries are normalized. -/
def normalize (c : Clauses Normalized) (ctx : Context) : Except PlanError (Query × Projection) := do
  if c.sources.isEmpty then throw (.malformed ⟨.fromSource, "nil"⟩ .notPlanned)
  c.checkOperation ctx.operation
  c.checkCombinedOrder
  let level ← c.mapM fun nested => do
    let (query, _) ← nested (ctx.nested c.queryPrefix)
    pure query
  let checked ← level.checkReferences ctx
  checked.checkPreloads ctx
  let (projected, projection) ← checked.projectFor ctx
  .ok (⟨projected.prune⟩, projection)

end Clauses

/-- Normalize a planned query. -/
def Query.normalize : Query → Normalized := Query.fold Clauses.normalize

end QueryPlanner
