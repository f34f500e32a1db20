import QueryPlanner.Expr.Render
import QueryPlanner.Expr.Walk
import QueryPlanner.Plan.Context

/-!
# Types of expressions

As far as the schemas tell, every expression has a type; where they do not tell, the type is `any`.

* `Scope.fieldType` — the declared type of a field
* `Scope.infer` — the type of an expression
-/

namespace QueryPlanner

/-- What the reading of an expression depends on: the bound sources of its level and its place. -/
structure Scope where
  ctx : Context
  sources : List BoundSource
  site : Site

namespace Scope

/-- A fault at the place of the expression. -/
def fail {α : Type} (s : Scope) (fault : Fault) : Except PlanError α :=
  .error (.malformed s.site fault)

/-- The declared type of a field; sources without schema are untyped. -/
def fieldType (s : Scope) (ix : Nat) (name : String) : Except PlanError FieldType :=
  match s.sources[ix]? with
  | none => s.fail (.unknownBinding ix)
  | some source =>
    match source.schema? with
    | none => .ok .any
    | some schemaName => do
      let schema ← s.ctx.schema s.site schemaName
      match schema.field? name with
      | some field => .ok field.type
      | none => s.fail (.fieldMissing name schemaName)

/-- The type of a node over the types of its children. -/
def inferNode (s : Scope) :
    Node (Expr × Except PlanError FieldType) → Except PlanError FieldType
  | .field ix name => s.fieldType ix name
  | .typed _ type => .ok type
  | .literal value => .ok (.ofValue value)
  | .call name _ => .ok (if name = "count" then .integer else .any)
  | .binary op left right =>
    if op.isArithmetic then do
      let type ← left.2
      if type.isAny then right.2 else .ok type
    else .ok .boolean
  | .not _ | .isNil _ | .isIn .. => .ok .boolean
  | .selectedAs inner _ => inner.2
  | _ => .ok .any

/-- The type of an expression.  Arithmetic has the type of its first typed operand. -/
def infer (s : Scope) : Expr → Except PlanError FieldType := Expr.fold s.inferNode

/-- The type that the values interpolated in an operand are cast to: the type of the other operand,
or `fallback` if that tells nothing.  Without interpolated values the question does not arise. -/
def operandType (s : Scope) (side other : Expr) (fallback : FieldType) :
    Except PlanError FieldType :=
  if side.hasPin then do
    let type ← s.infer other
    .ok (if type.isAny then fallback else type)
  else .ok .any

end Scope

end QueryPlanner
