import QueryPlanner.Expr.Basic

/-!
# Walking an expression

* `Expr.walk` — an expression and everything in it, parents first
* `Expr.any` — whether something in it satisfies a test
-/

namespace QueryPlanner

namespace Expr

/-- An expression followed by the walks of its children. -/
def walk : Expr → List Expr :=
  fold fun n => ⟨n.map (·.1)⟩ :: n.children.flatMap (·.2)

/-- Whether the expression or something in it satisfies a test. -/
def any (p : Expr → Bool) (e : Expr) : Bool := e.walk.any p

/-- An interpolated value. -/
def isPin : Expr → Bool
  | .pin _ => true
  | _ => false

/-- Whether an interpolated value occurs in the expression. -/
def hasPin (e : Expr) : Bool := e.any isPin

end Expr

end QueryPlanner
