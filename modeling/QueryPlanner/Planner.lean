import QueryPlanner.CacheKey.Build
import QueryPlanner.CacheKey.Sha256
import QueryPlanner.CacheKey.Text
import QueryPlanner.Normal.Level
import QueryPlanner.Plan.Level
import QueryPlanner.Settings.Basic

/-!
# The planner

A query becomes executable in two phases.  Planning binds its sources, expands its association
joins, moves interpolated values into positional parameters and derives a cache key.  Normalizing
checks the planned query against its operation, dumps literals and expands the selection.

* `Planner.plan`, `Planner.normalize` — the two phases
* `Planner.prepare` — one after the other
-/

namespace QueryPlanner

/-- A planned query. -/
structure Plan where
  query : Query
  /-- The parameters in the order of their placeholders. -/
  parameters : List BoundParameter
  cacheKey : CacheKey
  /-- Whether the key has a fingerprint, if there is a key. -/
  hasFingerprint : Bool

namespace Plan

/-- The values of the parameters in the order of their placeholders. -/
def values (p : Plan) : List Value := p.parameters.map (·.value)

/-- The digest of the text of the cache key. -/
def fingerprint? (p : Plan) : Option String :=
  if p.hasFingerprint then p.cacheKey.text?.map fun text => Sha256.hex text.toUTF8.toList else none

end Plan

/-- What queries are planned with. -/
structure Planner where
  registry : Registry
  conversions : Conversions
  /-- The prefix of sources for which nothing else sets one. -/
  defaultPrefix : Option String := none
  cache : CacheSettings := {}

namespace Planner

/-- Apply settings, in place of all that was set before. -/
def withSettings (p : Planner) (env : Settings.Environment) (s : Settings) :
    Except Settings.MissingVariable Planner := do
  let defaultPrefix ← s.resolvedPrefix env
  .ok { p with defaultPrefix, cache := s.cache }

/-- Set the default prefix. -/
def withPrefix (p : Planner) (tablePrefix : String) : Planner :=
  { p with defaultPrefix := some tablePrefix }

/-- The context of a pass for an operation on a database. -/
def context (p : Planner) (operation : Operation) (capabilities : Capabilities) : Context where
  registry := p.registry
  conversions := p.conversions
  capabilities := capabilities
  operation := operation
  defaultPrefix := p.defaultPrefix

/-- The key of a planned query, unless keys are turned off. -/
def cacheKey (p : Planner) (ctx : Context) (planned : Query) : CacheKey :=
  if p.cache.enabled then planned.cacheKey ctx ctx.operation else .uncacheable

/-- Bind sources, expand association joins, extract parameters and derive the cache key. -/
def plan (p : Planner) (query : Query) (operation : Operation) (capabilities : Capabilities) :
    Except PlanError Plan := do
  let ctx := p.context operation capabilities
  let (planned, parameters) ← (query.plan ctx).run []
  .ok
    { query := planned
      parameters
      cacheKey := p.cacheKey ctx planned
      hasFingerprint := p.cache.fingerprint }

/-- Check a planned query for an operation and expand its selection. -/
def normalize (p : Planner) (planned : Query) (operation : Operation)
    (capabilities : Capabilities) : Except PlanError (Query × Projection) :=
  planned.normalize (p.context operation capabilities)

/-- Plan and normalize; the plan carries the normalized query. -/
def prepare (p : Planner) (query : Query) (operation : Operation) (capabilities : Capabilities) :
    Except PlanError (Plan × Projection) := do
  let plan ← p.plan query operation capabilities
  let (normalized, projection) ← p.normalize plan.query operation capabilities
  .ok ({ plan with query := normalized }, projection)

end Planner

end QueryPlanner
