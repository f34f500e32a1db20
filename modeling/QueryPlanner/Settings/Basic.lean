import QueryPlanner.Dialect
import QueryPlanner.Settings.Expansion

/-!
# Settings

What a user may set: the dialect and default prefix of the planner, and what is computed for plan
caches.

* `Settings.resolvedPrefix` — the default prefix with its variables expanded
-/

namespace QueryPlanner

/-- Settings of the planner. -/
structure PlannerSettings where
  /-- The name of the dialect, as written. -/
  dialect : String := "postgres"
  /-- The prefix of sources for which nothing else sets one; it may hold variables. -/
  defaultPrefix : Option String := none
  deriving DecidableEq, Repr

/-- Settings of the keys of plan caches. -/
structure CacheSettings where
  /-- Whether plans have keys at all. -/
  enabled : Bool := true
  /-- Whether keys have fingerprints. -/
  fingerprint : Bool := true
  deriving DecidableEq, Repr

/-- All settings. -/
structure Settings where
  planner : PlannerSettings := {}
  cache : CacheSettings := {}
  deriving DecidableEq, Repr

namespace Settings

/-- The default prefix with its variables expanded; an empty one is none. -/
def resolvedPrefix (s : Settings) (env : Environment) :
    Except MissingVariable (Option String) :=
  match s.planner.defaultPrefix with
  | none => .ok none
  | some text => do
    let expanded ← expand env text
    .ok (if expanded.isEmpty then none else some expanded)

end Settings

end QueryPlanner
