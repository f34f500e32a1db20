import QueryPlanner.Query.Clauses

/-!
# Errors of planning and normalizing

An error names the clause it was raised in and shows the expression around it, so that the fault can
be found without another run.

* `Fault` — the ways in which the shape of a query is wrong
* `PlanError` — a fault, or a value without a counterpart in the type that its place requires
-/

namespace QueryPlanner

/-- What a query is planned for. -/
inductive Operation where
  | all
  | updateAll
  | deleteAll
  deriving DecidableEq, Repr

/-- The written form of an operation. -/
def Operation.name : Operation → String
  | all => "all"
  | updateAll => "update_all"
  | deleteAll => "delete_all"

/-- A clause of a query. -/
inductive Clause where
  | withCte
  | distinct
  | select
  | fromSource
  | join
  | filter
  | groupBy
  | having
  | windows
  | combination
  | orderBy
  | limit
  | offset
  | update
  | preload
  | lock
  deriving DecidableEq, Repr

/-- The written form of a clause. -/
def Clause.name : Clause → String
  | withCte => "with_cte"
  | distinct => "distinct"
  | select => "select"
  | fromSource => "from"
  | join => "join"
  | filter => "where"
  | groupBy => "group_by"
  | having => "having"
  | windows => "windows"
  | combination => "combination"
  | orderBy => "order_by"
  | limit => "limit"
  | offset => "offset"
  | update => "update"
  | preload => "preload"
  | lock => "lock"

/-- A way in which the shape of a query is wrong. -/
inductive Fault where
  | noSource
  | unsupportedJoin (qualifier : JoinQualifier) (dialect : String)
  | unsupportedRecursion (dialect : String)
  | unsupportedWindows (dialect : String)
  | unsupportedLocks (dialect : String)
  | schemaMissing (schema : String)
  | joinWithoutTarget
  | parentNotIntroduced (parent : Nat)
  | associationMissing (schema association : String)
  | hopMissing (schema association through : String)
  | noSchemaToFollow (binding : Nat)
  | cyclicAssociation (association schema : String)
  | emptyChain (association : String)
  | preloadQualifier (association : String) (qualifier : JoinQualifier)
  | neverBound
  | misplacedInterpolation
  | unknownBinding (binding : Nat)
  | fieldMissing (field schema : String)
  | notPlanned
  | updateNotAllowed (operation : Operation)
  | nothingUpdated
  | updatedTwice (field : String)
  | onlyFilters (operation : Operation)
  | bindingInCombinedOrder
  | aliasMissing (name : String)
  | windowMissing (window : String)
  | virtualReference (field schema : String)
  | rootNotSelected
  | preloadWithoutSchema
  | preloadMismatch (association : String) (binding : Nat) (expected : String)
  | preloadThroughTable (association : String)
  | cyclicThrough (association : String)
  | notAnAssociation (field schema : String)
  | hopFromTable (hop : String)
  | nothingToSelect
  | fieldsUnknown (binding : Nat)
  | structWithoutSchema (binding : Nat)
  | associationInMap (association : String) (binding : Nat)
  | virtualTake (field schema : String)
  | takeNotPreloaded (association : String)
  | bindingWithoutSchema (binding : Nat)
  deriving DecidableEq, Repr

/-- A name between backticks. -/
def ticked (name : String) : String := "`" ++ name ++ "`"

/-- A binding as messages show it. -/
def bindingText (ix : Nat) : String := "&" ++ toString ix

namespace Fault

/-- The text of a fault. -/
def message : Fault → String
  | noSource => "a query must have a source"
  | unsupportedJoin qualifier dialect =>
    qualifier.name ++ " joins are not supported by " ++ dialect
  | unsupportedRecursion dialect => "recursive CTEs are not supported by " ++ dialect
  | unsupportedWindows dialect => "named windows are not supported by " ++ dialect
  | unsupportedLocks dialect => "row locks are not supported by " ++ dialect
  | schemaMissing schema => "schema " ++ ticked schema ++ " is not registered"
  | joinWithoutTarget => "a join must have a source or an association"
  | parentNotIntroduced parent =>
    "binding " ++ bindingText parent ++ " is not introduced before this join"
  | associationMissing schema association =>
    "schema " ++ ticked schema ++ " does not have association " ++ ticked association
  | hopMissing schema association through =>
    "schema " ++ ticked schema ++ " does not have association " ++ ticked association ++
      " (through " ++ ticked through ++ ")"
  | noSchemaToFollow binding =>
    "binding " ++ bindingText binding ++ " has no schema to resolve associations against"
  | cyclicAssociation association schema =>
    "association " ++ ticked association ++ " of schema " ++ ticked schema ++ " is cyclic"
  | emptyChain association =>
    "through association " ++ ticked association ++ " has an empty chain"
  | preloadQualifier association qualifier =>
    "preload " ++ ticked association ++ " cannot be loaded through a " ++ qualifier.name ++ " join"
  | neverBound => "binding was never bound"
  | misplacedInterpolation =>
    "interpolated expressions and keyword lists are only allowed as a whole " ++
      "`where`, `having` or `on` expression"
  | unknownBinding binding => "unknown binding " ++ bindingText binding
  | fieldMissing field schema =>
    "field " ++ ticked field ++ " does not exist in schema " ++ ticked schema
  | notPlanned => "query must be planned before it is normalized"
  | updateNotAllowed operation =>
    ticked operation.name ++ " does not allow `update` expressions"
  | nothingUpdated => "`update_all` requires at least one field to be updated"
  | updatedTwice field => "field " ++ ticked field ++ " is updated more than once"
  | onlyFilters operation =>
    ticked operation.name ++ " allows only `with_cte`, `where` and `join` expressions"
  | bindingInCombinedOrder =>
    "cannot use bindings in `order_by` when using `union`, `except` or `intersect`; " ++
      "order by a `selected_as` alias instead"
  | aliasMissing name => ticked name ++ " is not a `selected_as` alias in `select`"
  | windowMissing window => "unknown window " ++ ticked window ++ " given to `over`"
  | virtualReference field schema =>
    "field " ++ ticked field ++ " in schema " ++ ticked schema ++
      " is virtual and cannot be used in queries"
  | rootNotSelected =>
    "the binding used in `from` must be selected in `select` when using `preload`"
  | preloadWithoutSchema => "preloading requires a schema-backed source"
  | preloadMismatch association binding expected =>
    "association " ++ ticked association ++ " is preloaded from binding " ++
      bindingText binding ++ ", which does not hold schema " ++ ticked expected
  | preloadThroughTable association =>
    "cannot preload through " ++ ticked association ++ ": it targets a table without a schema"
  | cyclicThrough association =>
    "association " ++ ticked association ++ " forms a cyclic `through` chain"
  | notAnAssociation field schema =>
    ticked field ++ " is a field of schema " ++ ticked schema ++ ", not an association"
  | hopFromTable hop => "`through` hop " ++ ticked hop ++ " starts from a table without a schema"
  | nothingToSelect => "a query without `select` must have a schema-backed or subquery source"
  | fieldsUnknown binding =>
    "binding " ++ bindingText binding ++
      " has no schema; select its fields explicitly or with map/2"
  | structWithoutSchema binding =>
    "struct/2 in select expects binding " ++ bindingText binding ++ " to have a schema"
  | associationInMap association binding =>
    "map/2 cannot load association " ++ ticked association ++ " from binding " ++
      bindingText binding ++ " without a schema"
  | virtualTake field schema =>
    "field " ++ ticked field ++ " is virtual in schema " ++ ticked schema
  | takeNotPreloaded association =>
    "association " ++ ticked association ++ " in select must be preloaded from a join"
  | bindingWithoutSchema binding => "binding " ++ bindingText binding ++ " has no schema"

end Fault

/-- The place of an expression: its clause, and the text that messages show for it. -/
structure Site where
  clause : Clause
  text : String
  deriving DecidableEq, Repr

/-- An error of planning or normalizing. -/
inductive PlanError where
  /-- The shape of the query is wrong. -/
  | malformed (site : Site) (fault : Fault)
  /-- An interpolated value has no counterpart in the type that its place requires. -/
  | cast (site : Site) (value : Value) (type : FieldType)
  /-- A value has no stored form. -/
  | dump (site : Site) (value : Value) (type : FieldType) (operation : Operation)

namespace PlanError

/-- The place of an error. -/
def site : PlanError → Site
  | malformed site _ => site
  | cast site .. => site
  | dump site .. => site

/-- The clause an error was raised in. -/
def clause (e : PlanError) : Clause := e.site.clause

/-- The text of an error. -/
def message : PlanError → String
  | malformed site fault => fault.message ++ " in " ++ ticked site.clause.name ++ ": " ++ site.text
  | cast site value type =>
    "value " ++ ticked value.render ++ " in " ++ ticked site.clause.name ++
      " cannot be cast to type " ++ type.render ++ " in " ++ ticked site.text
  | dump site value type operation =>
    "value " ++ ticked value.render ++ " in " ++ ticked site.clause.name ++
      " cannot be dumped to type " ++ type.render ++ " in " ++ ticked site.text ++
      " (" ++ operation.name ++ ")"

end PlanError

end QueryPlanner
