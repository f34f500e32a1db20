import QueryPlanner.Proofs.Conversion.Builtin
import QueryPlanner.Proofs.Normal.Scope

/-!
# The verdict on an expression

The check of an expression takes comparisons, membership tests and named windows apart before it
goes on to the children.  Told from the outside there are two reasons for it to fail and no third
one: something that the expression names is not at its level, or a literal set against a stored
field has no form in which that field could store it.

* `Node.Sets` — a node sets a literal against a field
* `Clauses.Admits` — a level has what an expression names, and forms for its literals
* `Clauses.check_iff_admits` — these are the expressions that the check accepts
-/

namespace QueryPlanner

variable {σ : Type}

/-! ### What is asked for -/

/-- A node compares a literal with a field of a binding, in either order, or tests the field for
being in a list that the literal stands in. -/
inductive Node.Sets : Node Expr → Nat → String → Value → Prop
  | compared {op : BinaryOp} {ix : Nat} {name : String} {value : Value} :
    op.isComparison = true → Sets (.binary op (.field ix name) (.literal value)) ix name value
  | reversed {op : BinaryOp} {ix : Nat} {name : String} {value : Value} :
    op.isComparison = true → Sets (.binary op (.literal value) (.field ix name)) ix name value
  | listed {items : List Expr} {ix : Nat} {name : String} {value : Value} :
    .literal value ∈ items → Sets (.isIn (.field ix name) (.list items)) ix name value

/-- The field of a source is stored with a type. -/
def BoundSource.StoresAs (r : Registry) (source : BoundSource) (name : String)
    (type : FieldType) : Prop :=
  ∃ schemaName schema field, source.schema? = some schemaName ∧
    r.lookup? schemaName = some schema ∧ schema.field? name = some field ∧
      field.isVirtual = false ∧ field.type = type

/-- A value that a type stores: null, or a value that has a stored form. -/
def Conversions.Stores (conversions : Conversions) (type : FieldType) (value : Value) : Prop :=
  value = .null ∨ ∃ stored, conversions.dump type value = .ok stored

/-- A level that has everything an expression names, and whose fields store the literals that the
expression sets against them. -/
structure Clauses.Admits (ctx : Context) (c : Clauses σ) (e : Expr) : Prop where
  names : ∀ x ∈ e.walk, c.Declares ctx.registry x.node
  literals : ∀ x ∈ e.walk, ∀ ix name value, x.node.Sets ix name value →
    ∀ source type, c.sources[ix]? = some source → source.StoresAs ctx.registry name type →
      ctx.conversions.Stores type value

/-! ### What is set against fields -/

/-- An expression is opposed as a literal to a field. -/
theorem Expr.mem_opposed_iff {left right : Expr} {l : Comparison} : l ∈ left.opposed right ↔
    left = .literal l.value ∧ right = .field l.binding l.field := by
  unfold Expr.opposed
  split
  · rename_i value ix name
    obtain ⟨ix', name', value'⟩ := l
    simp only [List.mem_singleton, Comparison.mk.injEq]
    constructor
    · rintro ⟨rfl, rfl, rfl⟩
      exact ⟨rfl, rfl⟩
    · rintro ⟨hvalue, hfield⟩
      cases hvalue
      cases hfield
      exact ⟨rfl, rfl, rfl⟩
  · rename_i hplain
    constructor
    · intro h
      cases h
    · rintro ⟨hleft, hright⟩
      exact (hplain _ _ _ hleft hright).elim

/-- The literals that the check looks at are those set against fields. -/
theorem Node.mem_comparisons_iff {n : Node Expr} {l : Comparison} :
    l ∈ n.comparisons ↔ n.Sets l.binding l.field l.value := by
  constructor
  · intro h
    unfold comparisons at h
    split at h
    · rename_i op left right
      split at h
      · rename_i hop
        rcases List.mem_append.mp h with h | h
        · obtain ⟨rfl, rfl⟩ := Expr.mem_opposed_iff.mp h
          exact .reversed hop
        · obtain ⟨rfl, rfl⟩ := Expr.mem_opposed_iff.mp h
          exact .compared hop
      · cases h
    · obtain ⟨item, hitem, h⟩ := List.mem_flatMap.mp h
      obtain ⟨rfl, hfield⟩ := Expr.mem_opposed_iff.mp h
      cases hfield
      exact .listed hitem
    · cases h
  · obtain ⟨ix, name, value⟩ := l
    intro h
    cases h with
    | compared hop | reversed hop => simp [comparisons, hop, Expr.opposed]
    | listed hmem =>
      exact List.mem_flatMap.mpr ⟨_, hmem, Expr.mem_opposed_iff.mpr ⟨rfl, rfl⟩⟩

theorem Context.storedField?_type_iff {ctx : Context} {source : BoundSource} {name : String}
    {type : FieldType} : (∃ field, ctx.storedField? source name = some field ∧ field.type = type) ↔
      source.StoresAs ctx.registry name type := by
  simp only [storedField?, BoundSource.StoresAs, Option.bind_eq_bind, Option.bind_eq_some_iff]
  constructor
  · rintro ⟨field, ⟨schemaName, hschema, schema, hlookup, found, hfound, hstored⟩, htype⟩
    cases hvirtual : found.isVirtual with
    | true => simp [hvirtual] at hstored
    | false =>
      simp only [hvirtual, Bool.false_eq_true, if_false, Option.some.injEq] at hstored
      exact ⟨schemaName, schema, found, hschema, hlookup, hfound, hvirtual, hstored ▸ htype⟩
  · rintro ⟨schemaName, schema, field, hschema, hlookup, hfound, hvirtual, htype⟩
    exact ⟨field, ⟨schemaName, hschema, schema, hlookup, field, hfound, by simp [hvirtual]⟩, htype⟩

theorem Conversions.stores_iff {conversions : Conversions} {type : FieldType} {value : Value} :
    conversions.Stores type value ↔ ∃ stored, conversions.dump type value = .ok stored := by
  refine or_iff_right_of_imp ?_
  rintro rfl
  exact ⟨.null, conversions.dump_null type⟩

/-- A literal has a stored form, if the field it is set against is stored. -/
theorem Comparison.stored_iff_stores {ctx : Context} {sources : List BoundSource}
    {l : Comparison} : l.Stored ctx sources ↔ ∀ source type, sources[l.binding]? = some source →
      source.StoresAs ctx.registry l.field type → ctx.conversions.Stores type l.value := by
  constructor
  · intro h source type hsource htype
    obtain ⟨field, hfield, rfl⟩ := Context.storedField?_type_iff.mpr htype
    exact Conversions.stores_iff.mpr (h source field hsource hfield)
  · intro h source field hsource hfield
    have htype := Context.storedField?_type_iff.mp ⟨field, hfield, rfl⟩
    exact Conversions.stores_iff.mp (h source field.type hsource htype)

/-! ### The verdict -/

/-- **The verdict on an expression.**  The check of an expression accepts it just if the level has
what the expression names at any depth, and every literal set against a stored field is null or has
a form in which the field's type stores it. -/
theorem Clauses.check_iff_admits (ctx : Context) (c : Clauses σ) (clause : Clause) (text : String)
    (e : Expr) : (∃ e', (c.references ctx clause text).check e = .ok e') ↔ c.Admits ctx e := by
  have hpasses : (∃ e', (c.references ctx clause text).check e = .ok e') ↔
      (c.references ctx clause text).Passes e := by
    have hsound := References.guarded_checked (r := c.references ctx clause text) e
    exact ⟨fun ⟨e', h⟩ => (hsound.eq_ok_iff.mp h).1, fun h => ⟨_, hsound.eq_ok_iff.mpr ⟨h, rfl⟩⟩⟩
  rw [hpasses]
  constructor
  · intro h
    refine ⟨fun x hx => finds_iff_declares.mp (h x hx).1, fun x hx ix name value hsets => ?_⟩
    have hstored := (h x hx).2 ⟨ix, name, value⟩ (Node.mem_comparisons_iff.mpr hsets)
    exact Comparison.stored_iff_stores.mp hstored
  · intro h x hx
    refine ⟨finds_iff_declares.mpr (h.names x hx), fun l hl => ?_⟩
    have hsets := Node.mem_comparisons_iff.mp hl
    exact Comparison.stored_iff_stores.mpr (h.literals x hx _ _ _ hsets)

end QueryPlanner
