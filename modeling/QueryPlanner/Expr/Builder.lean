import QueryPlanner.Expr.Basic

/-!
# Building expressions

Functions that combine expressions, so that a condition can be written from left to right.
-/

namespace QueryPlanner

namespace Expr

def eq (left right : Expr) : Expr := .binary .eq left right
def ne (left right : Expr) : Expr := .binary .ne left right
def lt (left right : Expr) : Expr := .binary .lt left right
def gt (left right : Expr) : Expr := .binary .gt left right
def lte (left right : Expr) : Expr := .binary .lte left right
def gte (left right : Expr) : Expr := .binary .gte left right
def and (left right : Expr) : Expr := .binary .and left right
def or (left right : Expr) : Expr := .binary .or left right
def add (left right : Expr) : Expr := .binary .add left right
def like (left right : Expr) : Expr := .binary .like left right

/-- Both of two conditions, as far as they are given. -/
def conjunction? : Option Expr → Option Expr → Option Expr
  | some left, some right => some (left.and right)
  | left, none => left
  | none, right => right

/-- The number of rows in which an expression is not null. -/
def count (e : Expr) : Expr := .call "count" [e]

/-- A call over a window that the query declares. -/
def overNamed (e : Expr) (window : String) : Expr := .windowed e (.named window)

/-- Some fields of a binding as a struct. -/
def takeStruct (ix : Nat) (fields : List String) : Expr := .structOf ix (fields.map .field)

/-- Some fields of a binding as a map. -/
def takeMap (ix : Nat) (fields : List String) : Expr := .mapOf ix (fields.map .field)

end Expr

end QueryPlanner
