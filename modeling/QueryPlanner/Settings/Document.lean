import QueryPlanner.Settings.Basic
import QueryPlanner.Toml.Reader

/-!
# Settings written as TOML

Whatever a document leaves out has its usual value, and what nobody asks for is passed over.

* `Settings.ofDocument` — the settings of a document
-/

namespace QueryPlanner

/-- Settings of the planner. -/
def PlannerSettings.ofToml (t : Toml) : Option PlannerSettings := do
  let usual : PlannerSettings := {}
  let r ← t.record? ["dialect", "default_prefix"]
  let dialect ← r.optional "dialect" Toml.text? usual.dialect
  let defaultPrefix ← r.optional "default_prefix" (fun t => t.text?.map some) usual.defaultPrefix
  some { dialect, defaultPrefix }

/-- Settings of the keys of plan caches. -/
def CacheSettings.ofToml (t : Toml) : Option CacheSettings := do
  let usual : CacheSettings := {}
  let r ← t.record? ["enabled", "fingerprint"]
  let enabled ← r.optional "enabled" Toml.flag? usual.enabled
  let fingerprint ← r.optional "fingerprint" Toml.flag? usual.fingerprint
  some { enabled, fingerprint }

namespace Settings

/-- Why a document gives no settings. -/
inductive DocumentError where
  /-- It is no TOML, or not a description of settings. -/
  | unreadable
  /-- It names a dialect that there is not. -/
  | dialect (unknown : Dialect.Unknown)
  deriving DecidableEq, Repr

/-- The text of the error for an unknown dialect; for an unreadable document there is none. -/
def DocumentError.message? : DocumentError → Option String
  | unreadable => none
  | dialect unknown => some ("Invalid configuration: " ++ unknown.message)

/-- All settings. -/
def ofToml (t : Toml) : Option Settings := do
  let r ← t.record? ["planner", "cache"]
  let planner ← r.optional "planner" PlannerSettings.ofToml {}
  let cache ← r.optional "cache" CacheSettings.ofToml {}
  some { planner, cache }

/-- The settings of a document and the dialect that they name. -/
def ofDocument (text : String) : Except DocumentError (Settings × Dialect) :=
  match (Toml.read text).bind ofToml with
  | none => .error .unreadable
  | some settings =>
    match Dialect.ofName settings.planner.dialect with
    | .ok dialect => .ok (settings, dialect)
    | .error unknown => .error (.dialect unknown)

end Settings

end QueryPlanner
