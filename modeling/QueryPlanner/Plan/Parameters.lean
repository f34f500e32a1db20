import QueryPlanner.Expr.Builder
import QueryPlanner.Plan.Typing

/-!
# Extracting parameters

Every interpolated value of an expression is cast to the type that its place requires, dumped, added
to the list of parameters, and replaced by the placeholder of its position.  Expressions are read
from left to right.

* `Scope.bindValue` — one value
* `Scope.bindExpr` — an expression of an expected type
* `Scope.bindCondition` — a whole condition, where interpolated expressions and keyword lists are
  legal
-/

namespace QueryPlanner

/-- A parameter in its stored form, addressed by its position. -/
structure BoundParameter where
  value : Value
  type : FieldType
  /-- The clause that it was interpolated in. -/
  clause : Clause

/-- A step of planning: it adds parameters to those bound before it, or fails. -/
abbrev Binder := StateT (List BoundParameter) (Except PlanError)

namespace Scope

/-- Cast and dump a value, add it to the parameters and yield its placeholder. -/
def bindValue (s : Scope) (value : Value) (type : FieldType) : Binder Expr := do
  match s.ctx.conversions.cast type value with
  | .error _ => throw (.cast s.site value type)
  | .ok logical =>
    match s.ctx.conversions.dump type logical with
    | .error _ => throw (.dump s.site value type s.ctx.operation)
    | .ok stored =>
      let bound ← get
      set (bound ++ [⟨stored, type, s.site.clause⟩])
      pure (.param bound.length)

/-- The types that the operands of a binary operator are read with. -/
def operandTypes (s : Scope) (op : BinaryOp) (left right : Expr) (expected : FieldType) :
    Except PlanError (FieldType × FieldType) :=
  if op.isLogical then .ok (.boolean, .boolean)
  else do
    let fallback := if op.isArithmetic then expected else .any
    let leftType ← s.operandType left right fallback
    let rightType ← s.operandType right left fallback
    .ok (leftType, rightType)

/-- Comparisons with an interpolated null are refused: they have an operator of their own. -/
def refuseNull (s : Scope) (operand : Expr) (type : FieldType) : Except PlanError Unit :=
  match operand with
  | .pin .null => .error (.cast s.site .null type)
  | _ => .ok ()

/-- The type that the elements on the right of a membership test are read with. -/
def elementType (s : Scope) (left right : Expr) : Except PlanError FieldType :=
  if right.hasPin then s.infer left else .ok .any

/-- The type that the left side of a membership test is read with: the element type of the right
side. -/
def memberType (s : Scope) (left right : Expr) : Except PlanError FieldType :=
  if left.hasPin then do
    let type ← s.infer right
    .ok (type.element?.getD .any)
  else .ok .any

/-- The right side of a membership test.  An interpolated collection becomes a range of
placeholders, one for each element. -/
def bindCollection (s : Scope) (element : FieldType) (right : Expr × (FieldType → Binder Expr)) :
    Binder Expr :=
  match right.1 with
  | .pin (.list values) => do
    let start := (← get).length
    let _ ← values.mapM fun value => s.bindValue value element
    pure (.paramRange start values.length)
  | .pin value => throw (.cast s.site value (.array element))
  | .list _ => right.2 (.array element)
  | _ => right.2 .any

/-- A node read with an expected type, given how to read its children. -/
def bindNode (s : Scope) :
    Node (Expr × (FieldType → Binder Expr)) → FieldType → Binder Expr
  | .pin value, expected => s.bindValue value expected
  | .dynamic _, _ => s.fail .misplacedInterpolation
  | .keywords _, _ => s.fail .misplacedInterpolation
  | .binary op left right, expected => do
    let (leftType, rightType) ← s.operandTypes op left.1 right.1 expected
    if op.isComparison then
      s.refuseNull left.1 leftType
      s.refuseNull right.1 rightType
    let left ← left.2 leftType
    let right ← right.2 rightType
    pure (.binary op left right)
  | .isIn left right, _ => do
    let element ← s.elementType left.1 right.1
    let leftType ← s.memberType left.1 right.1
    let left ← left.2 leftType
    let right ← s.bindCollection element right
    pure (.isIn left right)
  | .not inner, _ => do
    let inner ← inner.2 .boolean
    pure (.not inner)
  | .typed inner type, _ => do
    let inner ← inner.2 type
    pure (.typed inner type)
  | .list items, expected => do
    let element := expected.element?.getD expected
    let items ← items.mapM fun item => item.2 element
    pure (.list items)
  | .selectedAs inner name, expected => do
    let inner ← inner.2 expected
    pure (.selectedAs inner name)
  | n, _ => do
    let n ← n.mapM fun child => child.2 .any
    pure ⟨n⟩

/-- An expression read with an expected type. -/
def bindExpr (s : Scope) : Expr → FieldType → Binder Expr := Expr.fold s.bindNode

/-- The test that a keyword stands for: a field of the binding equals an interpolated value. -/
def bindKeyword (s : Scope) (ix : Nat) (pair : String × Value) : Binder Expr := do
  let type ← s.fieldType ix pair.1
  if pair.2.isNull then throw (.cast s.site pair.2 type)
  let placeholder ← s.bindValue pair.2 type
  pure ((Expr.field ix pair.1).eq placeholder)

/-- All of several conditions; none always holds. -/
def conjunction : List Expr → Expr
  | [] => .literal (.bool true)
  | e :: es => es.foldl Expr.and e

/-- A whole condition; a keyword list is about the binding `ix`. -/
def bindCondition (s : Scope) (ix : Nat) : Expr → Binder Expr
  | .dynamic inner => s.bindExpr inner .boolean
  | .keywords pairs => do
    let tests ← pairs.mapM (s.bindKeyword ix)
    pure (conjunction tests)
  | e => s.bindExpr e .boolean

end Scope

end QueryPlanner
