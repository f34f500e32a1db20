import QueryPlanner.FieldType

/-!
# One level of an expression

A node is an expression whose direct children are of any type, so that a pass over expressions can
be written for one level and its results put in the children's place.  Fragments, order items and
windows are containers of children and appear in clauses as well.

* `Node.children` — the direct children, in reading order
* `Node.map`, `Node.mapM` — the node with each child replaced, in the same order
-/

namespace QueryPlanner

universe u v

/-- A binary operator. -/
inductive BinaryOp where
  | eq
  | ne
  | lt
  | gt
  | lte
  | gte
  | and
  | or
  | add
  | sub
  | mul
  | div
  | like
  | ilike
  deriving DecidableEq, Repr

namespace BinaryOp

/-- Operators that compare two values of one type. -/
def isComparison : BinaryOp → Bool
  | eq | ne | lt | gt | lte | gte => true
  | _ => false

/-- Operators on truth values. -/
def isLogical : BinaryOp → Bool
  | and | or => true
  | _ => false

/-- Operators on numbers. -/
def isArithmetic : BinaryOp → Bool
  | add | sub | mul | div => true
  | _ => false

/-- The written form of an operator. -/
def symbol : BinaryOp → String
  | eq => "=="
  | ne => "!="
  | lt => "<"
  | gt => ">"
  | lte => "<="
  | gte => ">="
  | and => "and"
  | or => "or"
  | add => "+"
  | sub => "-"
  | mul => "*"
  | div => "/"
  | like => "like"
  | ilike => "ilike"

end BinaryOp

/-- A sort direction. -/
inductive Direction where
  | asc
  | desc
  deriving DecidableEq, Repr

/-- The written form of a direction. -/
def Direction.name : Direction → String
  | asc => "asc"
  | desc => "desc"

/-- A piece of a fragment: text that is passed on as it is, or an embedded expression. -/
inductive Part (ε : Type u) where
  | raw (text : String)
  | term (e : ε)

/-- An expression to sort by. -/
structure Ordered (ε : Type u) where
  direction : Direction
  term : ε

/-- A window: what partitions it, what orders it, and an optional frame. -/
structure Window (ε : Type u) where
  partition : List ε
  order : List (Ordered ε)
  frame : Option (List (Part ε))

/-- The window of a windowed call. -/
inductive WindowRef (ε : Type u) where
  /-- A window that the query declares. -/
  | named (name : String)
  | inline (window : Window ε)

/-- A field that a whole binding is narrowed to. -/
inductive Take where
  | field (name : String)
  /-- The fields to load for a joined preload of this association. -/
  | association (name : String) (nested : List Take)

/-- An expression with children of type `ε` in place of its direct sub-expressions. -/
inductive Node (ε : Type u) where
  /-- A field of a binding. -/
  | field (binding : Nat) (name : String)
  /-- A binding as a whole. -/
  | binding (ix : Nat)
  /-- A value written into the query. -/
  | literal (value : Value)
  /-- An interpolated value; planning puts a placeholder in its place. -/
  | pin (value : Value)
  /-- An interpolated expression, legal only as a whole condition. -/
  | dynamic (inner : ε)
  /-- An interpolated keyword list, legal only as a whole condition. -/
  | keywords (pairs : List (String × Value))
  /-- The placeholder of a parameter. -/
  | param (ix : Nat)
  /-- The placeholders `start`, …, `start + length - 1` of an interpolated collection. -/
  | paramRange (start length : Nat)
  | binary (op : BinaryOp) (left right : ε)
  | not (inner : ε)
  | isNil (inner : ε)
  /-- A membership test. -/
  | isIn (left right : ε)
  | list (items : List ε)
  | tuple (items : List ε)
  /-- A map literal of a selection. -/
  | mapping (entries : List (String × ε))
  | call (name : String) (arguments : List ε)
  /-- A type annotation. -/
  | typed (inner : ε) (type : FieldType)
  /-- A windowed call. -/
  | windowed (call : ε) (window : WindowRef ε)
  | fragment (parts : List (Part ε))
  /-- A binding as a schema struct; an empty take selects every loadable field. -/
  | structOf (binding : Nat) (take : List Take)
  /-- A binding as a map. -/
  | mapOf (binding : Nat) (take : List Take)
  /-- A selected expression with an alias. -/
  | selectedAs (inner : ε) (name : String)
  /-- An alias of the selection, used elsewhere. -/
  | selectedRef (name : String)

section

variable {α : Type u} {β : Type v}

/-- The expression embedded in a part. -/
def Part.children : Part α → List α
  | raw _ => []
  | term e => [e]

/-- A part with its expression replaced. -/
def Part.map (f : α → β) : Part α → Part β
  | raw text => raw text
  | term e => term (f e)

/-- An order item with its expression replaced. -/
def Ordered.map (f : α → β) (o : Ordered α) : Ordered β := ⟨o.direction, f o.term⟩

/-- The expressions of a window: partition, order, frame. -/
def Window.children (w : Window α) : List α :=
  w.partition ++ w.order.map (·.term) ++
    match w.frame with
    | none => []
    | some parts => parts.flatMap Part.children

/-- A window with its expressions replaced. -/
def Window.map (f : α → β) (w : Window α) : Window β where
  partition := w.partition.map f
  order := w.order.map (Ordered.map f)
  frame := w.frame.map (List.map (Part.map f))

/-- The expressions of an inline window; a name has none. -/
def WindowRef.children : WindowRef α → List α
  | named _ => []
  | inline window => window.children

/-- A window reference with its expressions replaced. -/
def WindowRef.map (f : α → β) : WindowRef α → WindowRef β
  | named name => named name
  | inline window => inline (window.map f)

namespace Node

/-- The direct children, in reading order. -/
def children : Node α → List α
  | dynamic inner | not inner | isNil inner | typed inner _ | selectedAs inner _ => [inner]
  | binary _ left right | isIn left right => [left, right]
  | list items | tuple items | call _ items => items
  | mapping entries => entries.map (·.2)
  | windowed inner window => inner :: window.children
  | fragment parts => parts.flatMap Part.children
  | field .. | binding _ | literal _ | pin _ | keywords _ | param _ | paramRange ..
  | structOf .. | mapOf .. | selectedRef _ => []

/-- The node with each child replaced. -/
def map (f : α → β) : Node α → Node β
  | field ix name => field ix name
  | binding ix => binding ix
  | literal value => literal value
  | pin value => pin value
  | dynamic inner => dynamic (f inner)
  | keywords pairs => keywords pairs
  | param ix => param ix
  | paramRange start length => paramRange start length
  | binary op left right => binary op (f left) (f right)
  | not inner => not (f inner)
  | isNil inner => isNil (f inner)
  | isIn left right => isIn (f left) (f right)
  | list items => list (items.map f)
  | tuple items => tuple (items.map f)
  | mapping entries => mapping (entries.map fun entry => (entry.1, f entry.2))
  | call name arguments => call name (arguments.map f)
  | typed inner type => typed (f inner) type
  | windowed inner window => windowed (f inner) (window.map f)
  | fragment parts => fragment (parts.map (Part.map f))
  | structOf ix take => structOf ix take
  | mapOf ix take => mapOf ix take
  | selectedAs inner name => selectedAs (f inner) name
  | selectedRef name => selectedRef name

end Node

end

section

variable {α β : Type u} {m : Type u → Type v} [Monad m]

/-- A part with its expression replaced, in a monad. -/
def Part.mapM (f : α → m β) : Part α → m (Part β)
  | raw text => pure (raw text)
  | term e => term <$> f e

/-- An order item with its expression replaced, in a monad. -/
def Ordered.mapM (f : α → m β) (o : Ordered α) : m (Ordered β) := do
  let term ← f o.term
  pure ⟨o.direction, term⟩

/-- A window with its expressions replaced in reading order. -/
def Window.mapM (f : α → m β) (w : Window α) : m (Window β) := do
  let partition ← w.partition.mapM f
  let order ← w.order.mapM (Ordered.mapM f)
  let frame ← match w.frame with
    | none => pure none
    | some parts => some <$> parts.mapM (Part.mapM f)
  pure { partition, order, frame }

/-- A window reference with its expressions replaced in reading order. -/
def WindowRef.mapM (f : α → m β) : WindowRef α → m (WindowRef β)
  | named name => pure (named name)
  | inline window => inline <$> window.mapM f

namespace Node

/-- The node with each child replaced, from left to right; the first failure ends it. -/
def mapM (f : α → m β) : Node α → m (Node β)
  | field ix name => pure (field ix name)
  | binding ix => pure (binding ix)
  | literal value => pure (literal value)
  | pin value => pure (pin value)
  | dynamic inner => dynamic <$> f inner
  | keywords pairs => pure (keywords pairs)
  | param ix => pure (param ix)
  | paramRange start length => pure (paramRange start length)
  | binary op left right => do
    let left ← f left
    let right ← f right
    pure (binary op left right)
  | not inner => not <$> f inner
  | isNil inner => isNil <$> f inner
  | isIn left right => do
    let left ← f left
    let right ← f right
    pure (isIn left right)
  | list items => list <$> items.mapM f
  | tuple items => tuple <$> items.mapM f
  | mapping entries => mapping <$> entries.mapM fun entry => do
    let inner ← f entry.2
    pure (entry.1, inner)
  | call name arguments => call name <$> arguments.mapM f
  | typed inner type => do
    let inner ← f inner
    pure (typed inner type)
  | windowed inner window => do
    let inner ← f inner
    let window ← window.mapM f
    pure (windowed inner window)
  | fragment parts => fragment <$> parts.mapM (Part.mapM f)
  | structOf ix take => pure (structOf ix take)
  | mapOf ix take => pure (mapOf ix take)
  | selectedAs inner name => do
    let inner ← f inner
    pure (selectedAs inner name)
  | selectedRef name => pure (selectedRef name)

end Node

end

end QueryPlanner
