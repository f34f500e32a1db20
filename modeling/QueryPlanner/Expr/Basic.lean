import QueryPlanner.Expr.Node

/-!
# Expressions

An expression is a node whose children are expressions.  The same tree is used before planning,
with interpolated values, and after it, with placeholders.

* `Expr.fold` — recursion: the rule for a node sees each child with its result
* `Expr.fold_mk` — one step of that recursion
* `Expr.induction` — a property that passes from the children to the node holds everywhere
-/

namespace QueryPlanner

universe u

/-- A query expression. -/
structure Expr where
  node : Node Expr

namespace Expr

@[match_pattern] abbrev field (ix : Nat) (name : String) : Expr := ⟨.field ix name⟩
@[match_pattern] abbrev binding (ix : Nat) : Expr := ⟨.binding ix⟩
@[match_pattern] abbrev literal (value : Value) : Expr := ⟨.literal value⟩
@[match_pattern] abbrev pin (value : Value) : Expr := ⟨.pin value⟩
@[match_pattern] abbrev dynamic (inner : Expr) : Expr := ⟨.dynamic inner⟩
@[match_pattern] abbrev keywords (pairs : List (String × Value)) : Expr := ⟨.keywords pairs⟩
@[match_pattern] abbrev param (ix : Nat) : Expr := ⟨.param ix⟩
@[match_pattern] abbrev paramRange (start length : Nat) : Expr := ⟨.paramRange start length⟩
@[match_pattern] abbrev binary (op : BinaryOp) (left right : Expr) : Expr :=
  ⟨.binary op left right⟩
@[match_pattern] abbrev not (inner : Expr) : Expr := ⟨.not inner⟩
@[match_pattern] abbrev isNil (inner : Expr) : Expr := ⟨.isNil inner⟩
@[match_pattern] abbrev isIn (left right : Expr) : Expr := ⟨.isIn left right⟩
@[match_pattern] abbrev list (items : List Expr) : Expr := ⟨.list items⟩
@[match_pattern] abbrev tuple (items : List Expr) : Expr := ⟨.tuple items⟩
@[match_pattern] abbrev mapping (entries : List (String × Expr)) : Expr := ⟨.mapping entries⟩
@[match_pattern] abbrev call (name : String) (arguments : List Expr) : Expr :=
  ⟨.call name arguments⟩
@[match_pattern] abbrev typed (inner : Expr) (type : FieldType) : Expr := ⟨.typed inner type⟩
@[match_pattern] abbrev windowed (inner : Expr) (window : WindowRef Expr) : Expr :=
  ⟨.windowed inner window⟩
@[match_pattern] abbrev fragment (parts : List (Part Expr)) : Expr := ⟨.fragment parts⟩
@[match_pattern] abbrev structOf (ix : Nat) (take : List Take) : Expr := ⟨.structOf ix take⟩
@[match_pattern] abbrev mapOf (ix : Nat) (take : List Take) : Expr := ⟨.mapOf ix take⟩
@[match_pattern] abbrev selectedAs (inner : Expr) (name : String) : Expr :=
  ⟨.selectedAs inner name⟩
@[match_pattern] abbrev selectedRef (name : String) : Expr := ⟨.selectedRef name⟩

section

variable {α : Type u}

mutual

/-- Recursion on an expression.  The rule for a node sees each child together with its result. -/
def fold (rule : Node (Expr × α) → α) : Expr → α
  | ⟨.field ix name⟩ => rule (.field ix name)
  | ⟨.binding ix⟩ => rule (.binding ix)
  | ⟨.literal value⟩ => rule (.literal value)
  | ⟨.pin value⟩ => rule (.pin value)
  | ⟨.dynamic inner⟩ => rule (.dynamic (inner, inner.fold rule))
  | ⟨.keywords pairs⟩ => rule (.keywords pairs)
  | ⟨.param ix⟩ => rule (.param ix)
  | ⟨.paramRange start length⟩ => rule (.paramRange start length)
  | ⟨.binary op left right⟩ =>
    rule (.binary op (left, left.fold rule) (right, right.fold rule))
  | ⟨.not inner⟩ => rule (.not (inner, inner.fold rule))
  | ⟨.isNil inner⟩ => rule (.isNil (inner, inner.fold rule))
  | ⟨.isIn left right⟩ => rule (.isIn (left, left.fold rule) (right, right.fold rule))
  | ⟨.list items⟩ => rule (.list (foldItems rule items))
  | ⟨.tuple items⟩ => rule (.tuple (foldItems rule items))
  | ⟨.mapping entries⟩ => rule (.mapping (foldEntries rule entries))
  | ⟨.call name arguments⟩ => rule (.call name (foldItems rule arguments))
  | ⟨.typed inner type⟩ => rule (.typed (inner, inner.fold rule) type)
  | ⟨.windowed inner (.named name)⟩ => rule (.windowed (inner, inner.fold rule) (.named name))
  | ⟨.windowed inner (.inline ⟨partition, order, none⟩)⟩ =>
    rule (.windowed (inner, inner.fold rule)
      (.inline ⟨foldItems rule partition, foldOrder rule order, none⟩))
  | ⟨.windowed inner (.inline ⟨partition, order, some parts⟩)⟩ =>
    rule (.windowed (inner, inner.fold rule)
      (.inline ⟨foldItems rule partition, foldOrder rule order, some (foldParts rule parts)⟩))
  | ⟨.fragment parts⟩ => rule (.fragment (foldParts rule parts))
  | ⟨.structOf ix take⟩ => rule (.structOf ix take)
  | ⟨.mapOf ix take⟩ => rule (.mapOf ix take)
  | ⟨.selectedAs inner name⟩ => rule (.selectedAs (inner, inner.fold rule) name)
  | ⟨.selectedRef name⟩ => rule (.selectedRef name)

/-- The results of the expressions of a list. -/
def foldItems (rule : Node (Expr × α) → α) : List Expr → List (Expr × α)
  | [] => []
  | e :: es => (e, e.fold rule) :: foldItems rule es

/-- The results of the expressions of a map literal. -/
def foldEntries (rule : Node (Expr × α) → α) : List (String × Expr) → List (String × Expr × α)
  | [] => []
  | (key, e) :: es => (key, e, e.fold rule) :: foldEntries rule es

/-- The results of the expressions of an ordering. -/
def foldOrder (rule : Node (Expr × α) → α) : List (Ordered Expr) → List (Ordered (Expr × α))
  | [] => []
  | ⟨direction, e⟩ :: es => ⟨direction, e, e.fold rule⟩ :: foldOrder rule es

/-- The results of the expressions of a fragment. -/
def foldParts (rule : Node (Expr × α) → α) : List (Part Expr) → List (Part (Expr × α))
  | [] => []
  | .raw text :: parts => .raw text :: foldParts rule parts
  | .term e :: parts => .term (e, e.fold rule) :: foldParts rule parts

end

variable (rule : Node (Expr × α) → α)

theorem foldItems_eq (es : List Expr) :
    foldItems rule es = es.map fun e => (e, e.fold rule) := by
  induction es with
  | nil => rfl
  | cons e es ih => simp [foldItems, ih]

theorem foldEntries_eq (es : List (String × Expr)) :
    foldEntries rule es = es.map fun entry => (entry.1, entry.2, entry.2.fold rule) := by
  induction es with
  | nil => rfl
  | cons e es ih => simp [foldEntries, ih]

theorem foldOrder_eq (es : List (Ordered Expr)) :
    foldOrder rule es = es.map (Ordered.map fun e => (e, e.fold rule)) := by
  induction es with
  | nil => rfl
  | cons e es ih => simp [foldOrder, Ordered.map, ih]

theorem foldParts_eq (parts : List (Part Expr)) :
    foldParts rule parts = parts.map (Part.map fun e => (e, e.fold rule)) := by
  induction parts with
  | nil => rfl
  | cons part parts ih => cases part <;> simp [foldParts, Part.map, ih]

/-- One step of the recursion: the rule applied to the node over its children's results. -/
theorem fold_mk (n : Node Expr) : fold rule ⟨n⟩ = rule (n.map fun e => (e, e.fold rule)) := by
  cases n with
  | windowed call window =>
    cases window with
    | named name => simp [fold, Node.map, WindowRef.map]
    | inline window =>
      obtain ⟨partition, order, frame⟩ := window
      cases frame <;>
        simp [fold, Node.map, WindowRef.map, Window.map, foldItems_eq, foldOrder_eq, foldParts_eq]
  | _ => simp [fold, Node.map, foldItems_eq, foldEntries_eq, foldParts_eq]

end

mutual

/-- A property that passes from the children of a node to the node holds of every expression. -/
theorem induction {P : Expr → Prop}
    (step : ∀ n : Node Expr, (∀ c ∈ n.children, P c) → P ⟨n⟩) : ∀ e : Expr, P e
  | ⟨.dynamic inner⟩ => step _ (by simpa [Node.children] using induction step inner)
  | ⟨.binary _ left right⟩ =>
    step _ (by simpa [Node.children] using ⟨induction step left, induction step right⟩)
  | ⟨.not inner⟩ => step _ (by simpa [Node.children] using induction step inner)
  | ⟨.isNil inner⟩ => step _ (by simpa [Node.children] using induction step inner)
  | ⟨.isIn left right⟩ =>
    step _ (by simpa [Node.children] using ⟨induction step left, induction step right⟩)
  | ⟨.list items⟩ => step _ (induction_items step items)
  | ⟨.tuple items⟩ => step _ (induction_items step items)
  | ⟨.mapping entries⟩ => step _ (induction_entries step entries)
  | ⟨.call _ arguments⟩ => step _ (induction_items step arguments)
  | ⟨.typed inner _⟩ => step _ (by simpa [Node.children] using induction step inner)
  | ⟨.windowed inner (.named _)⟩ =>
    step _ (by simpa [Node.children, WindowRef.children] using induction step inner)
  | ⟨.windowed inner (.inline ⟨partition, order, none⟩)⟩ =>
    step _ (by
      have hc := induction step inner
      have hp := induction_items step partition
      have ho := induction_order step order
      simp only [Node.children, WindowRef.children, Window.children, List.append_nil,
        List.mem_cons, List.mem_append]
      rintro c (rfl | hm | hm)
      · exact hc
      · exact hp c hm
      · exact ho c hm)
  | ⟨.windowed inner (.inline ⟨partition, order, some parts⟩)⟩ =>
    step _ (by
      have hc := induction step inner
      have hp := induction_items step partition
      have ho := induction_order step order
      have hf := induction_parts step parts
      simp only [Node.children, WindowRef.children, Window.children, List.mem_cons,
        List.mem_append]
      rintro c (rfl | (hm | hm) | hm)
      · exact hc
      · exact hp c hm
      · exact ho c hm
      · exact hf c hm)
  | ⟨.fragment parts⟩ => step _ (induction_parts step parts)
  | ⟨.selectedAs inner _⟩ => step _ (by simpa [Node.children] using induction step inner)
  | ⟨.field ..⟩ => step _ (by simp [Node.children])
  | ⟨.binding _⟩ => step _ (by simp [Node.children])
  | ⟨.literal _⟩ => step _ (by simp [Node.children])
  | ⟨.pin _⟩ => step _ (by simp [Node.children])
  | ⟨.keywords _⟩ => step _ (by simp [Node.children])
  | ⟨.param _⟩ => step _ (by simp [Node.children])
  | ⟨.paramRange ..⟩ => step _ (by simp [Node.children])
  | ⟨.structOf ..⟩ => step _ (by simp [Node.children])
  | ⟨.mapOf ..⟩ => step _ (by simp [Node.children])
  | ⟨.selectedRef _⟩ => step _ (by simp [Node.children])

theorem induction_items {P : Expr → Prop}
    (step : ∀ n : Node Expr, (∀ c ∈ n.children, P c) → P ⟨n⟩) :
    ∀ es : List Expr, ∀ c ∈ es, P c
  | [] => by simp
  | e :: es => by
    have he := induction step e
    have hes := induction_items step es
    simpa using ⟨he, hes⟩

theorem induction_entries {P : Expr → Prop}
    (step : ∀ n : Node Expr, (∀ c ∈ n.children, P c) → P ⟨n⟩) :
    ∀ es : List (String × Expr), ∀ c ∈ es.map (·.2), P c
  | [] => by simp
  | (_, e) :: es => by
    have he := induction step e
    have hes := induction_entries step es
    rw [List.map_cons]
    intro c hc
    rcases List.mem_cons.mp hc with rfl | hc
    · exact he
    · exact hes c hc

theorem induction_order {P : Expr → Prop}
    (step : ∀ n : Node Expr, (∀ c ∈ n.children, P c) → P ⟨n⟩) :
    ∀ es : List (Ordered Expr), ∀ c ∈ es.map (·.term), P c
  | [] => by simp
  | ⟨_, e⟩ :: es => by
    have he := induction step e
    have hes := induction_order step es
    rw [List.map_cons]
    intro c hc
    rcases List.mem_cons.mp hc with rfl | hc
    · exact he
    · exact hes c hc

theorem induction_parts {P : Expr → Prop}
    (step : ∀ n : Node Expr, (∀ c ∈ n.children, P c) → P ⟨n⟩) :
    ∀ parts : List (Part Expr), ∀ c ∈ parts.flatMap Part.children, P c
  | [] => by simp
  | .raw _ :: parts => by
    have hes := induction_parts step parts
    simpa [Part.children] using hes
  | .term e :: parts => by
    have he := induction step e
    have hes := induction_parts step parts
    rw [List.flatMap_cons]
    intro c hc
    rcases List.mem_append.mp hc with hc | hc
    · rw [Part.children, List.mem_singleton] at hc
      exact hc ▸ he
    · exact hes c hc

end

end Expr

end QueryPlanner
