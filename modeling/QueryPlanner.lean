import QueryPlanner.Binary64.Layout
import QueryPlanner.Text.Quoted
import QueryPlanner.Text.Letter
import QueryPlanner.Text.LowerCase
import QueryPlanner.Text.Numeral
import QueryPlanner.Text.ForeignKey
import QueryPlanner.Text.Uuid
import QueryPlanner.Conversion.BinaryId
import QueryPlanner.Expr.Basic
import QueryPlanner.Expr.Walk
import QueryPlanner.Expr.Render
import QueryPlanner.Expr.Fragment
import QueryPlanner.Expr.Builder
import QueryPlanner.Query.Render
import QueryPlanner.Query.Builder
import QueryPlanner.Schema.Registry
import QueryPlanner.Dialect
import QueryPlanner.Plan.Error
import QueryPlanner.Plan.Bindings
import QueryPlanner.Plan.Level
import QueryPlanner.CacheKey.Build
import QueryPlanner.CacheKey.Text
import QueryPlanner.CacheKey.Sha256
import QueryPlanner.Normal.Level
import QueryPlanner.Json.Reader
import QueryPlanner.Toml.Reader
import QueryPlanner.Schema.Document
import QueryPlanner.Settings.Document
import QueryPlanner.Planner
import QueryPlanner.Proofs.Expr.Children
import QueryPlanner.Proofs.Plan.Yields
import QueryPlanner.Proofs.Plan.Silent
import QueryPlanner.Proofs.Expr.Detail
import QueryPlanner.Proofs.Query.Exprs
import QueryPlanner.Proofs.Query.Items
import QueryPlanner.Proofs.Query.Reading
import QueryPlanner.Proofs.Plan.Resolution
import QueryPlanner.Proofs.Plan.Sources
import QueryPlanner.Proofs.Plan.Routes
import QueryPlanner.Proofs.Plan.Failing
import QueryPlanner.Proofs.Plan.Blocks
import QueryPlanner.Proofs.Plan.Conditions
import QueryPlanner.Proofs.Expr.Renaming
import QueryPlanner.Proofs.Plan.Unfolding
import QueryPlanner.Proofs.Plan.Reads
import QueryPlanner.Proofs.Plan.Level
import QueryPlanner.Proofs.Plan.Query
import QueryPlanner.Proofs.Plan.Placeholders
import QueryPlanner.Proofs.Plan.Shift
import QueryPlanner.Proofs.Plan.Considered
import QueryPlanner.Proofs.Plan.Standalone
import QueryPlanner.Proofs.Plan.Extraction
import QueryPlanner.Proofs.CacheKey.Expr
import QueryPlanner.Proofs.CacheKey.Code
import QueryPlanner.Proofs.CacheKey.Clauses
import QueryPlanner.Proofs.CacheKey.Level
import QueryPlanner.Proofs.CacheKey.Query
import QueryPlanner.Proofs.CacheKey.Faithful
import QueryPlanner.Proofs.CacheKey.InStep
import QueryPlanner.Proofs.CacheKey.Oblivious
import QueryPlanner.Proofs.CacheKey.Demands
import QueryPlanner.Proofs.CacheKey.Parameters
import QueryPlanner.Proofs.Normal.References
import QueryPlanner.Proofs.Normal.Outline
import QueryPlanner.Proofs.Normal.Projection
import QueryPlanner.Proofs.Normal.Level
import QueryPlanner.Proofs.Normal.Scope
import QueryPlanner.Proofs.CacheKey.Acceptance
import QueryPlanner.Proofs.Binary64.Rounding
import QueryPlanner.Proofs.Binary64.Shortest
import QueryPlanner.Proofs.Binary64.Layout
import QueryPlanner.Proofs.CacheKey.Agreement
import QueryPlanner.Proofs.CacheKey.Written
import QueryPlanner.Proofs.CacheKey.Text
import QueryPlanner.Proofs.CacheKey.Cacheable
import QueryPlanner.Proofs.Normal.Columns
import QueryPlanner.Proofs.Normal.Expansion
import QueryPlanner.Proofs.Normal.Form
import QueryPlanner.Proofs.Normal.Refusals
import QueryPlanner.Proofs.Normal.Changes
import QueryPlanner.Proofs.Normal.Placeholders
import QueryPlanner.Proofs.CacheKey.Normalized
import QueryPlanner.Proofs.Plan.Agreement
import QueryPlanner.Proofs.Plan.Nested
import QueryPlanner.Proofs.Plan.Capabilities
import QueryPlanner.Proofs.Plan.Separate
import QueryPlanner.Proofs.Plan.Prefixes
import QueryPlanner.Proofs.Plan.Expansion
import QueryPlanner.Proofs.CacheKey.Operations
import QueryPlanner.Proofs.Normal.Lawful
import QueryPlanner.Proofs.Normal.Leads
import QueryPlanner.Proofs.Normal.JoinTargets
import QueryPlanner.Proofs.Normal.Preloads
import QueryPlanner.Proofs.Normal.Associations
import QueryPlanner.Proofs.Normal.Rows
import QueryPlanner.Proofs.Normal.Takes
import QueryPlanner.Proofs.Normal.Subquery
import QueryPlanner.Proofs.Plan.Extension
import QueryPlanner.Proofs.Plan.Readable
import QueryPlanner.Proofs.Plan.Related
import QueryPlanner.Proofs.Plan.Appends
import QueryPlanner.Proofs.Normal.Extension
import QueryPlanner.Proofs.Conversion.Builtin
import QueryPlanner.Proofs.Normal.Interpolated
import QueryPlanner.Proofs.Normal.Literals
import QueryPlanner.Proofs.Normal.Replanned
import QueryPlanner.Proofs.Normal.Stored
import QueryPlanner.Proofs.Plan.Cycles
import QueryPlanner.Proofs.Plan.JoinConditions
import QueryPlanner.Proofs.Plan.Expected
import QueryPlanner.Proofs.Plan.Restated
import QueryPlanner.Proofs.Plan.Misplaced
import QueryPlanner.Proofs.Normal.Verdict
import QueryPlanner.Proofs.CacheKey.Checked
import QueryPlanner.Proofs.Conversion.RoundTrip
import QueryPlanner.Proofs.Conversion.Storage
import QueryPlanner.Proofs.Plan.Steps
import QueryPlanner.Proofs.Plan.Converted
import QueryPlanner.Proofs.Text.Runs
import QueryPlanner.Proofs.Settings.Tokens
import QueryPlanner.Proofs.Schema.OwnerKeys
import QueryPlanner.Proofs.Expr.Grouping
import QueryPlanner.Proofs.Expr.Traversal
import QueryPlanner.Proofs.Expr.Fragments
import QueryPlanner.Proofs.Plan.Comparisons
