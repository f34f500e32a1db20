import QueryPlanner.Expr.Render
import QueryPlanner.Expr.Walk
import QueryPlanner.Plan.Error

/-!
# What an operation allows

* `Clauses.checkOperation` — reading allows no updates, deleting only filters, updating only filters
  and updates, each field once
* `Clauses.checkCombinedOrder` — with set operations an ordering names no bindings
-/

namespace QueryPlanner

variable {σ : Type}

namespace Clauses

/-- The clauses that no bulk write allows, in the order in which they are looked for. -/
def readClauses (c : Clauses σ) : List (Clause × Bool) :=
  [(.distinct, c.distinct.isSome), (.select, c.select.isSome), (.groupBy, !c.groupBys.isEmpty),
    (.having, !c.havings.isEmpty), (.windows, !c.windows.isEmpty),
    (.combination, !c.combinations.isEmpty), (.orderBy, !c.orderBys.isEmpty),
    (.limit, c.limit.isSome), (.offset, c.offset.isSome), (.lock, c.lock.isSome),
    (.preload, !c.preloads.isEmpty)]

/-- Refuse the first clause that no bulk write allows. -/
def checkOnlyFilters (operation : Operation) (c : Clauses σ) : Except PlanError Unit :=
  match c.readClauses.find? (·.2) with
  | some (clause, _) => .error (.malformed ⟨clause, clause.name⟩ (.onlyFilters operation))
  | none => .ok ()

/-- Refuse any update entry. -/
def checkNoUpdate (operation : Operation) (c : Clauses σ) : Except PlanError Unit :=
  match c.updates.head? with
  | some update =>
    .error (.malformed ⟨.update, update.op.name⟩ (.updateNotAllowed operation))
  | none => .ok ()

/-- The names of the fields that are assigned, in order. -/
def updatedFields (c : Clauses σ) : List String := c.updates.flatMap (·.fields.map (·.1))

/-- The first name that stands in the list, or in `seen`, before. -/
def firstRepeated? (seen : List String) : List String → Option String
  | [] => none
  | name :: names =>
    if seen.contains name then some name else firstRepeated? (name :: seen) names

/-- Require an assignment, and at most one for each field. -/
def checkUpdates (c : Clauses σ) : Except PlanError Unit :=
  if c.updatedFields.isEmpty then .error (.malformed ⟨.update, "[]"⟩ .nothingUpdated)
  else
    match firstRepeated? [] c.updatedFields with
    | some name => .error (.malformed ⟨.update, name⟩ (.updatedTwice name))
    | none => .ok ()

/-- Refuse what an operation does not allow. -/
def checkOperation (operation : Operation) (c : Clauses σ) : Except PlanError Unit :=
  match operation with
  | .all => c.checkNoUpdate .all
  | .deleteAll => do
    c.checkNoUpdate .deleteAll
    c.checkOnlyFilters .deleteAll
  | .updateAll => do
    c.checkUpdates
    c.checkOnlyFilters .updateAll

end Clauses

/-- An expression that names a binding. -/
def Expr.usesBinding : Expr → Bool
  | .field .. | .binding _ | .structOf .. | .mapOf .. => true
  | _ => false

/-- The items of an ordering. -/
def OrderBy.orderedItems : OrderBy → List (Ordered Expr)
  | .items ordered => ordered
  | .pinned _ => []

namespace Clauses

/-- Each branch of a set operation has bindings of its own, so an ordering must not name any. -/
def checkCombinedOrder (c : Clauses σ) : Except PlanError Unit :=
  if c.combinations.isEmpty then .ok ()
  else
    match (c.orderBys.flatMap (·.orderedItems)).find? (·.term.any Expr.usesBinding) with
    | some item => .error (.malformed ⟨.orderBy, item.render⟩ .bindingInCombinedOrder)
    | none => .ok ()

end Clauses

end QueryPlanner
