import QueryPlanner.Expr.Basic

/-!
# The text of an expression

Messages show expressions in a readable form: fields as `&0.title`, interpolated values behind a
caret, placeholders behind a question mark.  An operand that is an operation with another operator
stands in parentheses.

* `Expr.render` — the text of an expression
* `Expr.renderFragment`, `Ordered.render` — the parts that clauses show as well
-/

namespace QueryPlanner

namespace Expr

/-- Texts with a comma and a blank between them. -/
abbrev commaSeparated : List String → String := Value.commaSeparated

/-- A key and a text. -/
def labelled (key text : String) : String := key ++ ": " ++ text

/-- An order item over the text of its expression. -/
def renderOrdered (o : Ordered String) : String := labelled o.direction.name o.term

/-- The text of a fragment, a question mark for each embedded expression. -/
def fragmentText : List (Part String) → String
  | [] => ""
  | .raw text :: parts => text ++ fragmentText parts
  | .term _ :: parts => "?" ++ fragmentText parts

/-- A fragment over the texts of its expressions, which follow the text of the fragment. -/
def renderParts (parts : List (Part String)) : String :=
  let terms := parts.flatMap Part.children
  "fragment(\"" ++ fragmentText parts ++ "\"" ++ String.join (terms.map (", " ++ ·)) ++ ")"

mutual

/-- The fields that a binding is narrowed to. -/
def renderTake : Take → String
  | .field name => ":" ++ name
  | .association name nested => labelled name ("[" ++ commaSeparated (renderTakes nested) ++ "]")

/-- The texts of a list of fields. -/
def renderTakes : List Take → List String
  | [] => []
  | t :: ts => renderTake t :: renderTakes ts

end

/-- A binding narrowed by `name`. -/
def renderNarrowed (name : String) (ix : Nat) (take : List Take) : String :=
  name ++ "(&" ++ toString ix ++ ", [" ++ commaSeparated (renderTakes take) ++ "])"

/-- An operand of `parent`, in parentheses if it is an operation with another operator. -/
def renderOperand (parent : BinaryOp) (operand : Expr × String) : String :=
  match operand.1 with
  | .binary op _ _ => if op = parent then operand.2 else "(" ++ operand.2 ++ ")"
  | _ => operand.2

/-- The window of a call; a frame is not shown. -/
def renderWindow : WindowRef (Expr × String) → String
  | .named name => ":" ++ name
  | .inline window =>
    "(partition_by: [" ++ commaSeparated (window.partition.map (·.2)) ++ "], order_by: [" ++
      commaSeparated (window.order.map fun o => renderOrdered (o.map (·.2))) ++ "])"

/-- The text of a node over the texts of its children. -/
def renderNode : Node (Expr × String) → String
  | .field ix name => "&" ++ toString ix ++ "." ++ name
  | .binding ix => "&" ++ toString ix
  | .literal value => value.render
  | .pin value => "^" ++ value.render
  | .dynamic inner => "^dynamic(" ++ inner.2 ++ ")"
  | .keywords pairs =>
    "^[" ++ commaSeparated (pairs.map fun pair => labelled pair.1 pair.2.render) ++ "]"
  | .param ix => "?" ++ toString ix
  | .paramRange start length => "?[" ++ toString start ++ ".." ++ toString (start + length) ++ "]"
  | .binary op left right =>
    renderOperand op left ++ " " ++ op.symbol ++ " " ++ renderOperand op right
  | .not inner => "not(" ++ inner.2 ++ ")"
  | .isNil inner => "is_nil(" ++ inner.2 ++ ")"
  | .isIn left right => left.2 ++ " in " ++ right.2
  | .list items => "[" ++ commaSeparated (items.map (·.2)) ++ "]"
  | .tuple items => "\x7b" ++ commaSeparated (items.map (·.2)) ++ "\x7d"
  | .mapping entries =>
    "%\x7b" ++ commaSeparated (entries.map fun entry => labelled entry.1 entry.2.2) ++ "\x7d"
  | .call name arguments => name ++ "(" ++ commaSeparated (arguments.map (·.2)) ++ ")"
  | .typed inner type => "type(" ++ inner.2 ++ ", " ++ type.render ++ ")"
  | .windowed inner window => inner.2 ++ " over " ++ renderWindow window
  | .fragment parts => renderParts (parts.map (Part.map (·.2)))
  | .structOf ix take => renderNarrowed "struct" ix take
  | .mapOf ix take => renderNarrowed "map" ix take
  | .selectedAs inner name => "selected_as(" ++ inner.2 ++ ", :" ++ name ++ ")"
  | .selectedRef name => "selected_as(:" ++ name ++ ")"

/-- The text of an expression. -/
def render : Expr → String := fold renderNode

/-- The text of a fragment that stands in a clause. -/
def renderFragment (parts : List (Part Expr)) : String := render (.fragment parts)

end Expr

/-- The text of an order item. -/
def Ordered.render (o : Ordered Expr) : String := Expr.renderOrdered (o.map Expr.render)

end QueryPlanner
