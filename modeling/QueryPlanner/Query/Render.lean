import QueryPlanner.Expr.Render
import QueryPlanner.Query.Clauses

/-!
# The text of sources and joins

Messages name a join by its qualifier, its source or association, and its condition.  What a
subquery holds is not shown.
-/

namespace QueryPlanner

universe u

variable {σ : Type u}

/-- The text of a source. -/
def Source.render : Source σ → String
  | table name => Text.quote name
  | schema _ name => name
  | subquery _ => "subquery(...)"
  | fragment parts => Expr.renderFragment parts

/-- The text of what is joined: the association if there is one, else the source. -/
def Join.renderTarget (j : Join σ) : String :=
  match j.association, j.source with
  | some ref, _ => "assoc(&" ++ toString ref.parent ++ ", :" ++ ref.name ++ ")"
  | none, some source => source.render
  | none, none => "nil"

/-- The text of a join. -/
def Join.render (j : Join σ) : String :=
  let condition := match j.on with
    | some on => ", on: " ++ on.render
    | none => ""
  j.qualifier.name ++ "_join: " ++ j.renderTarget ++ condition

end QueryPlanner
