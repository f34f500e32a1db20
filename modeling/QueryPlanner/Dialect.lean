import QueryPlanner.Text.LowerCase

/-!
# Dialects

Some query shapes are legal only on databases that support them.  A dialect is known by its names
and stands for a set of capabilities.

* `Dialect.capabilities` — what a dialect supports
* `Dialect.ofName` — the dialect of a name, whatever its case and the blanks around it
-/

namespace QueryPlanner

/-- What a database supports. -/
structure Capabilities where
  name : String
  lateral : Bool := true
  rightJoin : Bool := true
  fullOuterJoin : Bool := true
  namedWindows : Bool := true
  recursiveCte : Bool := true
  rowLocks : Bool := true
  deriving DecidableEq, Repr

/-- A supported dialect. -/
inductive Dialect where
  | postgres
  | mysql
  | tsql
  | sqlite
  | duckdb
  deriving DecidableEq, Repr, Inhabited

namespace Dialect

/-- The name of a dialect. -/
def name : Dialect → String
  | postgres => "postgres"
  | mysql => "mysql"
  | tsql => "tsql"
  | sqlite => "sqlite"
  | duckdb => "duckdb"

/-- What a dialect supports. -/
def capabilities (d : Dialect) : Capabilities :=
  match d with
  | postgres => { name := d.name }
  | mysql => { name := d.name, fullOuterJoin := false }
  | tsql => { name := d.name, lateral := false, namedWindows := false, rowLocks := false }
  | sqlite => { name := d.name, lateral := false, rowLocks := false }
  | duckdb => { name := d.name, rowLocks := false }

/-- A name that belongs to no dialect, trimmed and in lower case. -/
structure Unknown where
  name : String
  deriving DecidableEq, Repr

/-- The text of the error for an unknown name. -/
def Unknown.message (u : Unknown) : String := "Unknown dialect: " ++ u.name

/-- The dialect of a name or of one of its usual short forms. -/
def ofName (s : String) : Except Unknown Dialect :=
  let name := Text.lowercase (Text.trim s)
  if ["postgres", "postgresql", "pg"].contains name then .ok postgres
  else if ["mysql", "mariadb"].contains name then .ok mysql
  else if ["tsql", "mssql", "sqlserver"].contains name then .ok tsql
  else if ["sqlite", "sqlite3"].contains name then .ok sqlite
  else if name = "duckdb" then .ok duckdb
  else .error ⟨name⟩

end Dialect

end QueryPlanner
