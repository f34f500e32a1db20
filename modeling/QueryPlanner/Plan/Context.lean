import QueryPlanner.Conversion.Basic
import QueryPlanner.Dialect
import QueryPlanner.Plan.Error
import QueryPlanner.Schema.Registry

/-!
# The context of a planning pass

What every step of planning and normalizing looks things up in.

* `Context.resolvePrefix` — the table prefix of a source: the first that is set of the clause's, the
  schema's, the query's and the default one
* `Context.nested` — the context of a nested query
* `Context.dumpLiteral?` — the stored form of a literal that is compared with a field
-/

namespace QueryPlanner

/-- What planning looks things up in. -/
structure Context where
  registry : Registry
  conversions : Conversions
  capabilities : Capabilities
  operation : Operation
  /-- The prefix of sources for which nothing else sets one. -/
  defaultPrefix : Option String

namespace Context

/-- The schema of a name, or an error at the given place. -/
def schema (ctx : Context) (site : Site) (name : String) : Except PlanError Schema :=
  match ctx.registry.lookup? name with
  | some s => .ok s
  | none => .error (.malformed site (.schemaMissing name))

/-- The first prefix that is set of the clause's, the schema's, the query's and the default one. -/
def resolvePrefix (ctx : Context) (clausePrefix : Option String) (schema : Option Schema)
    (queryPrefix : Option String) : Option String :=
  clausePrefix <|> schema.bind (·.tablePrefix) <|> queryPrefix <|> ctx.defaultPrefix

/-- Nested queries are read, and inherit the prefix of the query around them as their default. -/
def nested (ctx : Context) (parentPrefix : Option String) : Context :=
  { ctx with operation := .all, defaultPrefix := parentPrefix <|> ctx.defaultPrefix }

/-- The field that a name denotes on a bound source with a registered schema, unless virtual. -/
def storedField? (ctx : Context) (source : BoundSource) (name : String) : Option FieldDef := do
  let schemaName ← source.schema?
  let schema ← ctx.registry.lookup? schemaName
  let field ← schema.field? name
  if field.isVirtual then none else some field

/-- The stored form of a literal compared with a field; nothing if the field is not stored or the
literal has no such form. -/
def dumpLiteral? (ctx : Context) (source : BoundSource) (name : String) (value : Value) :
    Option Value := do
  let field ← ctx.storedField? source name
  (ctx.conversions.dump field.type value).toOption

end Context

end QueryPlanner
