import QueryPlanner.Proofs.Normal.Stored

/-!
# The type that a place requires

The type that an interpolated value is bound with is told by its place.  Opposite a field it is the
declared type of the field, whatever type the operator around it is read with; in a collection that
a field is sought in, and before an array, it is that of the elements.  An annotation tells it by
itself, an assignment by the assigned field, and a limit is a number.

* `Scope.Requires` — what the expression around an interpolation requires
* `Query.Requires` — what a place of a query requires
* `Interpolation.Bound` — what an interpolation leaves in its place
* `Scope.Requires.bound`, `Query.Requires.bound` — it is bound with the type that is required
* `Planner.plan_required` — a whole plan
-/

namespace QueryPlanner

open Binder HasExprs

variable {ps qs : List BoundParameter}

/-! ### Interpolations and what is left of them -/

/-- What is interpolated at a place: a value, or the elements of a collection one by one. -/
inductive Interpolation where
  | value (v : Value)
  | elements (values : List Value)

/-- What an interpolation leaves in its place: a placeholder, or a range with a placeholder for each
element.  The parameters have the type that is required and store the values. -/
inductive Interpolation.Bound (conversions : Conversions) (clause : Clause)
    (parameters : List BoundParameter) (type : FieldType) : Interpolation → Expr → Prop
  | value {v k p} (found : parameters[k]? = some p) (typed : p.type = type)
    (stores : p.Stores conversions (v, clause)) :
    Bound conversions clause parameters type (.value v) (.param k)
  | elements {values start} (found : ∀ (i : Nat) v, values[i]? = some v →
      ∃ p, parameters[start + i]? = some p ∧ p.type = type ∧ p.Stores conversions (v, clause)) :
    Bound conversions clause parameters type (.elements values) (.paramRange start values.length)

theorem Interpolation.Bound.mono {conversions : Conversions} {clause : Clause}
    {parameters parameters' : List BoundParameter} {type : FieldType} {what : Interpolation}
    {a : Expr} (h : what.Bound conversions clause parameters type a)
    (hkept : parameters <+: parameters') : what.Bound conversions clause parameters' type a := by
  cases h with
  | value found typed stores =>
    exact .value (List.getElem?_of_prefix hkept found) typed stores
  | elements found =>
    refine .elements fun i v hv => ?_
    obtain ⟨p, hp, typed, stores⟩ := found i v hv
    exact ⟨p, List.getElem?_of_prefix hkept hp, typed, stores⟩

/-! ### What is required -/

/-- What an expression requires of the interpolation at a path below it.  A value opposite a typed
field has the type of the field; logical operators have no values for operands.  The elements that a
field is sought among have its type, whether they are interpolated together or one by one.  A value
that is sought in an array field has the type of its elements. -/
inductive Scope.Requires (s : Scope) : Expr → List Nat → Interpolation → FieldType → Prop
  | left {op ix name type v} (operator : op.isLogical = false)
    (declared : s.fieldType ix name = .ok type) (known : type ≠ .any) :
    Requires s (.binary op (.pin v) (.field ix name)) [0] (.value v) type
  | right {op ix name type v} (operator : op.isLogical = false)
    (declared : s.fieldType ix name = .ok type) (known : type ≠ .any) :
    Requires s (.binary op (.field ix name) (.pin v)) [1] (.value v) type
  | collection {ix name type values} (declared : s.fieldType ix name = .ok type) :
    Requires s (.isIn (.field ix name) (.pin (.list values))) [1] (.elements values) type
  | element {ix name type items j v} (declared : s.fieldType ix name = .ok type)
    (item : items[j]? = some (.pin v)) :
    Requires s (.isIn (.field ix name) (.list items)) [1, j] (.value v) type
  | member {ix name element v} (declared : s.fieldType ix name = .ok (.array element)) :
    Requires s (.isIn (.pin v) (.field ix name)) [0] (.value v) element
  | annotated {v type} : Requires s (.typed (.pin v) type) [0] (.value v) type

/-- The assignments of the updates of a level, in order. -/
def Clauses.assignments {σ : Type} (c : Clauses σ) : List (UpdateOp × String × Expr) :=
  c.updates.flatMap fun u => u.fields.map fun field => (u.op, field)

/-- What a query whose sources are bound requires of the interpolation at an address.  A field that
is set or increased requires its own type, one that is pushed to or pulled from requires the type of
its elements, if it is an array.  A limit and an offset require a number. -/
inductive Query.Requires : Context → Query → Address → Interpolation → FieldType → Prop
  | inside {ctx} {c : Clauses Query} {clause i path below e what type}
    (holds : Query.at? ⟨c⟩ (.expr clause i path) = some e)
    (requires : (ctx.place c.sources clause).Requires e below what type) :
    Requires ctx ⟨c⟩ (.expr clause i (path ++ below)) what type
  | assigned {ctx} {c : Clauses Query} {i op name v type} (operator : op = .set ∨ op = .inc)
    (assigns : c.assignments[i]? = some (op, name, .pin v))
    (declared : (ctx.place c.sources .update).fieldType 0 name = .ok type) :
    Requires ctx ⟨c⟩ (.expr .update i []) (.value v) type
  | pushed {ctx} {c : Clauses Query} {i op name v type} (operator : op = .push ∨ op = .pull)
    (assigns : c.assignments[i]? = some (op, name, .pin v))
    (declared : (ctx.place c.sources .update).fieldType 0 name = .ok type) :
    Requires ctx ⟨c⟩ (.expr .update i []) (.value v) (type.element?.getD .any)
  | counted {ctx} {c : Clauses Query} {clause i v} (count : clause = .limit ∨ clause = .offset)
    (holds : Query.at? ⟨c⟩ (.expr clause i []) = some (.pin v)) :
    Requires ctx ⟨c⟩ (.expr clause i []) (.value v) .integer
  | nested {ctx} {c : Clauses Query} {clause i q rest what type}
    (holds : (c.items clause)[i]? = some (.nested q))
    (requires : Requires (ctx.nested c.queryPrefix) q rest what type) :
    Requires ctx ⟨c⟩ (.nested clause i rest) what type

/-- The clause that an address leads to. -/
def Address.clause : Address → Clause
  | expr clause _ _ => clause
  | nested _ _ rest => rest.clause

/-! ### Expressions -/

theorem Expr.at?_append (e : Expr) : ∀ path below : List Nat,
    e.at? (path ++ below) = (e.at? path).bind fun x => x.at? below := by
  intro path
  induction path generalizing e with
  | nil => exact fun _ => rfl
  | cons i path ih =>
    intro below
    simp only [List.cons_append, at?, Option.bind_assoc, ih]

namespace Scope

variable {s : Scope}

/-- What is at a place of an expression that is read is read there, unless it is interpolated. -/
theorem reads_at {x : Expr} (hpin : ∀ v, x ≠ .pin v) : ∀ {path : List Nat} {e a : Expr}
    {expected : FieldType} {ps qs : List BoundParameter}, s.Reads e expected ps a qs →
      e.at? path = some x →
      ∃ type rs y ts, s.Reads x type rs y ts ∧ a.at? path = some y ∧ ts <+: qs
  | [], e, a, expected, ps, qs, h, hx => by
    obtain rfl := Option.some.inj hx
    exact ⟨expected, ps, a, qs, h, rfl, List.prefix_rfl⟩
  | i :: path, ⟨n⟩, a, expected, ps, qs, h, hx => by
    obtain ⟨c, hc, hx⟩ := Expr.at?_cons.mp hx
    have hplain : ∀ v, c ≠ .pin v := by
      rintro v rfl
      exact hpin v (Expr.eq_of_at?_leaf rfl hx).2.symm
    obtain ⟨type, rs, b, ts, hread, hb, hts⟩ := reads_child h hc hplain
    obtain ⟨type', rs', y, ts', hread', hy, hts'⟩ := reads_at hpin hread hx
    exact ⟨type', rs', y, ts', hread', Expr.at?_cons.mpr ⟨b, hb, hy⟩, hts'.trans hts⟩

/-- A value is bound with the type that it is read with. -/
theorem bound_of_reads {v : Value} {type : FieldType} {a : Expr}
    (h : s.Reads (.pin v) type ps a qs) :
    (Interpolation.value v).Bound s.ctx.conversions s.site.clause qs type a := by
  rcases reads_stores h with
    ⟨w, p, hw, htype, hstores, rfl, rfl⟩ | ⟨_, _, _, _, _, hn, -⟩ | ⟨hplain, -⟩
  · obtain rfl := Node.pin.inj hw
    exact .value (by simp) htype hstores
  · cases hn
  · cases hplain

/-- A value that a node hands a type down to is bound with it. -/
theorem bound_of_child {n : Node Expr} {cs : List (Expr × FieldType)} {expected : FieldType}
    {a : Expr} {i : Nat} {v : Value} {type : FieldType} (hplain : n.Plain)
    (h : s.Reads ⟨n⟩ expected ps a qs) (hcs : s.typedChildren n expected = some cs)
    (hi : cs[i]? = some (.pin v, type)) :
    ∃ x, a.at? [i] = some x ∧
      (Interpolation.value v).Bound s.ctx.conversions s.site.clause qs type x := by
  obtain ⟨rs, x, ts, hread, hx, hts⟩ := reads_typedChild hplain h hcs hi
  exact ⟨x, Expr.at?_cons.mpr ⟨x, hx, rfl⟩, (bound_of_reads hread).mono hts⟩

section

variable {ix : Nat} {name : String} {type : FieldType}

/-- Opposite a typed field, a value is read with the type of the field, whatever type is expected of
the operator. -/
theorem operandTypes_field {op : BinaryOp} (hop : op.isLogical = false)
    (hdeclared : s.fieldType ix name = .ok type) (hknown : type ≠ .any) (v : Value)
    (expected : FieldType) :
    s.operandTypes op (.pin v) (.field ix name) expected = .ok (type, .any) ∧
      s.operandTypes op (.field ix name) (.pin v) expected = .ok (.any, type) := by
  have hany : type.isAny = false := by
    cases type with
    | any => exact absurd rfl hknown
    | _ => rfl
  simp only [operandTypes, hop, Bool.false_eq_true, if_false, operandType_pin, operandType_field,
    hdeclared, Except.map, hany]
  exact ⟨rfl, rfl⟩

/-- The elements that a field is sought among are read with its type. -/
theorem elementType_field {right : Expr} (hpin : right.hasPin = true) :
    s.elementType (.field ix name) right = s.fieldType ix name := by
  rw [elementType, hpin, if_pos rfl, infer_field]

/-- The elements of a collection that a field is sought in are bound with its type. -/
theorem bound_of_collection {values : List Value} {expected : FieldType} {a : Expr}
    (hdeclared : s.fieldType ix name = .ok type)
    (h : s.Reads (.isIn (.field ix name) (.pin (.list values))) expected ps a qs) :
    ∃ x, a.at? [1] = some x ∧
      (Interpolation.elements values).Bound s.ctx.conversions s.site.clause qs type x := by
  generalize he : Expr.isIn (.field ix name) (.pin (.list values)) = e at h
  cases h with
  | both => cases congrArg Expr.node he
  | bound text h =>
    obtain rfl := he
    obtain ⟨element, leftType, left', rs, right', -, helement, -, -, hright, rfl⟩ := reads_isIn h
    rw [elementType_field (Expr.hasPin_pin _), hdeclared] at helement
    obtain rfl : type = element := Option.some.inj helement
    obtain ⟨values', added, hvalues, hstores, htypes, rfl, rfl⟩ := yields_bindCollection hright
    obtain rfl := Value.list.inj hvalues
    refine ⟨_, rfl, .elements fun i v hv => ?_⟩
    rw [List.forall₂_map_left_iff] at hstores
    obtain ⟨p, hp, hstore⟩ := List.exists_getElem?_of_forall₂ hstores hv
    refine ⟨p, ?_, htypes p (List.mem_of_getElem? hp), hstore⟩
    rw [List.getElem?_append_right (by omega), Nat.add_sub_cancel_left, hp]

end

/-- **What an expression requires, it gets**: in the place of the interpolation is what binding it
with the required type leaves. -/
theorem Requires.bound {e a : Expr} {below : List Nat} {what : Interpolation}
    {type expected : FieldType} (h : s.Requires e below what type)
    (hread : s.Reads e expected ps a qs) :
    ∃ x, a.at? below = some x ∧ what.Bound s.ctx.conversions s.site.clause qs type x := by
  cases h with
  | @left op ix name type v operator declared known =>
    have hcs : s.typedChildren (.binary op (.pin v) (.field ix name)) expected =
        some [(.pin v, type), (.field ix name, .any)] := by
      rw [typedChildren, (operandTypes_field operator declared known v expected).1]
      rfl
    exact bound_of_child (n := .binary op (.pin v) (.field ix name)) trivial hread hcs rfl
  | @right op ix name type v operator declared known =>
    have hcs : s.typedChildren (.binary op (.field ix name) (.pin v)) expected =
        some [(.field ix name, .any), (.pin v, type)] := by
      rw [typedChildren, (operandTypes_field operator declared known v expected).2]
      rfl
    exact bound_of_child (n := .binary op (.field ix name) (.pin v)) trivial hread hcs rfl
  | collection declared => exact bound_of_collection declared hread
  | @element ix name type items j v declared item =>
    have hpin : (Expr.list items).hasPin = true := by
      rw [Expr.hasPin_mk, Bool.or_eq_true, List.any_eq_true]
      exact .inr ⟨.pin v, List.mem_of_getElem? item, Expr.hasPin_pin v⟩
    have hmember : s.memberType (.field ix name) (.list items) = .ok .any := by
      rw [memberType, Expr.hasPin_mk]
      rfl
    have hcs : s.typedChildren (.isIn (.field ix name) (.list items)) expected =
        some [(.field ix name, .any), (.list items, .array type)] := by
      rw [typedChildren, elementType_field hpin, declared, hmember]
      rfl
    obtain ⟨rs, b, ts, hlist, hb, hts⟩ :=
      reads_typedChild (n := .isIn (.field ix name) (.list items)) (i := 1) trivial hread hcs rfl
    obtain ⟨x, hx, hbound⟩ := bound_of_child (n := .list items) trivial hlist rfl
      (by rw [List.getElem?_map, item]; rfl)
    exact ⟨x, Expr.at?_cons.mpr ⟨b, hb, hx⟩, hbound.mono hts⟩
  | @member ix name _ v declared =>
    have hmember : s.memberType (.pin v) (.field ix name) = .ok type := by
      rw [memberType, Expr.hasPin_pin, if_pos rfl, infer_field, declared]
      rfl
    have helement : s.elementType (.pin v) (.field ix name) = .ok .any := by
      rw [elementType, Expr.hasPin_mk]
      rfl
    have hcs : s.typedChildren (.isIn (.pin v) (.field ix name)) expected =
        some [(.pin v, type), (.field ix name, .any)] := by
      rw [typedChildren, helement, hmember]
      rfl
    exact bound_of_child (n := .isIn (.pin v) (.field ix name)) trivial hread hcs rfl
  | @annotated v type => exact bound_of_child (n := .typed (.pin v) type) trivial hread rfl rfl

end Scope

/-! ### Queries -/

/-- The tasks of updates read what is assigned, each with the type that its field gives it. -/
theorem Clauses.tasks_update {σ : Type} (typeOf : String → Option FieldType) (c : Clauses σ) :
    c.tasks typeOf .update = c.assignments.map fun assignment =>
      ⟨.update, (typeOf assignment.2.1).map (Level.updateType assignment.1),
        .expr assignment.2.2⟩ := by
  rw [tasks, assignments, List.map_flatMap]
  refine List.flatMap_congr fun u _ => ?_
  rw [Update.tasks, List.map_map]
  rfl

theorem Clauses.assignments_edit {σ τ : Type} (g : σ → τ) (c : Clauses σ) :
    (c.edit id g).assignments = c.assignments := by
  simp [assignments, edit, rewrite]

namespace Query

variable {ctx : Context} {c : Clauses Query} {t : Query} {b : Bindings Query}

/-- A value that is assigned is bound with the type that the operation and its field require. -/
theorem bound_assigned (h : (plan ⟨c⟩ ctx).Yields ps t qs) (hb : c.resolve ctx = .ok b) {i : Nat}
    {op : UpdateOp} {name : String} {v : Value} {type : FieldType}
    (hassigns : (c.prepared b).assignments[i]? = some (op, name, .pin v))
    (hdeclared : (ctx.place b.sources .update).fieldType 0 name = .ok type) :
    ∃ x, t.at? (.expr .update i []) = some x ∧ (Interpolation.value v).Bound ctx.conversions
      .update qs (Level.updateType op type) x := by
  have htype : ctx.typeOf b.sources name = some type := by
    rw [Context.typeOf, hdeclared]
    rfl
  have htask : ((c.prepared b).tasks (ctx.typeOf b.sources) .update)[i]? =
      some ⟨.update, some (Level.updateType op type), .expr (.pin v)⟩ := by
    rw [Clauses.tasks_update, List.getElem?_map, hassigns, Option.map_some, htype]
    rfl
  obtain ⟨rs, item, ts, hperforms, hts, hitem⟩ := plan_task h hb htask
  cases item with
  | nested q => cases hperforms
  | expr a =>
    obtain ⟨expected, hexpected, hread⟩ := hperforms
    obtain rfl := Option.some.inj hexpected
    exact ⟨a, at?_expr.mpr ⟨a, hitem, rfl⟩, (Scope.bound_of_reads hread).mono hts⟩

/-- A value that limits how many rows there are is bound as a number. -/
theorem bound_counted (h : (plan ⟨c⟩ ctx).Yields ps t qs) (hb : c.resolve ctx = .ok b) {i : Nat}
    {clause : Clause} {v : Value} (hcount : clause = .limit ∨ clause = .offset)
    (hholds : ((c.prepared b).items clause)[i]? = some (.expr (.pin v))) :
    ∃ x, t.at? (.expr clause i []) = some x ∧
      (Interpolation.value v).Bound ctx.conversions clause qs .integer x := by
  have htask : ((c.prepared b).tasks (ctx.typeOf b.sources) clause)[i]? =
      some (Item.task clause .integer (.expr (.pin v))) := by
    rcases hcount with rfl | rfl <;> rw [Clauses.tasks, List.getElem?_map, hholds] <;> rfl
  obtain ⟨rs, item, ts, hperforms, hts, hitem⟩ := plan_task h hb htask
  cases item with
  | nested q => cases hperforms
  | expr a =>
    obtain ⟨expected, hexpected, hread⟩ := hperforms
    obtain rfl := Option.some.inj hexpected
    exact ⟨a, at?_expr.mpr ⟨a, hitem, rfl⟩, (Scope.bound_of_reads hread).mono hts⟩

/-- What a query with its sources bound holds is what the level that is planned holds. -/
theorem expanded_cases {q : Query} {c₀ : Clauses Query} (hq : (⟨c₀⟩ : Query) = q.expanded ctx)
    (h : (q.plan ctx).Yields ps t qs) :
    ∃ c b, q = ⟨c⟩ ∧ c.resolve ctx = .ok b ∧
      c₀ = (c.prepared b).edit id fun q => q.expanded (ctx.nested c.queryPrefix) := by
  obtain ⟨c⟩ := q
  obtain ⟨b, hb, -⟩ := plan_cases h
  rw [expanded_mk hb] at hq
  exact ⟨c, b, rfl, hb, Query.mk.inj hq⟩

/-- **What a place of a query requires, it gets.** -/
theorem Requires.bound {q₀ : Query} {address : Address} {what : Interpolation} {type : FieldType}
    (h : q₀.Requires ctx address what type) : ∀ {q t : Query} {ps qs : List BoundParameter},
      q₀ = q.expanded ctx → (q.plan ctx).Yields ps t qs →
      ∃ x, t.at? address = some x ∧
        what.Bound ctx.conversions address.clause qs type x := by
  induction h with
  | @inside ctx c₀ clause i path below e what type holds requires =>
    intro q t ps qs hq hplan
    obtain ⟨c, b, rfl, hb, rfl⟩ := expanded_cases hq hplan
    rw [hq] at holds
    obtain ⟨e₀, he₀, hat⟩ := at?_expanded_expr hb holds
    obtain ⟨expected, rs, a, ts, hread, hts, ha⟩ := plan_expr hplan hb he₀
    have hpin : ∀ v, e ≠ .pin v := by
      rintro v rfl
      cases requires
    obtain ⟨expected', rs', y, ts', hread', hy, hts'⟩ := Scope.reads_at hpin hread hat
    obtain ⟨x, hx, hbound⟩ := requires.bound hread'
    refine ⟨x, ?_, hbound.mono (hts'.trans hts)⟩
    obtain ⟨d⟩ := t
    refine at?_expr.mpr ⟨a, ha, ?_⟩
    rw [Expr.at?_append, hy, Option.bind_some, hx]
  | @assigned ctx c₀ i op name v type operator assigns declared =>
    intro q t ps qs hq hplan
    obtain ⟨c, b, rfl, hb, rfl⟩ := expanded_cases hq hplan
    rw [Clauses.assignments_edit] at assigns
    have hbound := bound_assigned hplan hb assigns declared
    rcases operator with rfl | rfl <;> exact hbound
  | @pushed ctx c₀ i op name v type operator assigns declared =>
    intro q t ps qs hq hplan
    obtain ⟨c, b, rfl, hb, rfl⟩ := expanded_cases hq hplan
    rw [Clauses.assignments_edit] at assigns
    have hbound := bound_assigned hplan hb assigns declared
    rcases operator with rfl | rfl <;> exact hbound
  | @counted ctx c₀ clause i v count holds =>
    intro q t ps qs hq hplan
    obtain ⟨c, b, rfl, hb, rfl⟩ := expanded_cases hq hplan
    rw [hq] at holds
    obtain ⟨e₀, he₀, hat⟩ := at?_expanded_expr hb holds
    obtain rfl := Option.some.inj hat
    exact bound_counted hplan hb count he₀
  | @nested ctx c₀ clause i q₀ rest what type holds requires ih =>
    intro q t ps qs hq hplan
    obtain ⟨c, b, rfl, hb, rfl⟩ := expanded_cases hq hplan
    rw [Clauses.items_edit, List.getElem?_map] at holds
    obtain ⟨item, hitem, heq⟩ := Option.map_eq_some_iff.mp holds
    cases item with
    | expr e => cases heq
    | nested inner =>
      obtain rfl : inner.expanded (ctx.nested c.queryPrefix) = q₀ := Item.nested.inj heq
      obtain ⟨rs, u, ts, hyields, hts, hu⟩ := plan_inner hplan hb hitem
      obtain ⟨x, hx, hbound⟩ := ih rfl hyields
      obtain ⟨d⟩ := t
      exact ⟨x, at?_nested.mpr ⟨u, hu, hx⟩, hbound.mono hts⟩

end Query

/-- **What type an interpolated value is bound with.**  Take a query that is planned, and a place of
it that requires a type of what is interpolated there: in any clause, as deep in an expression as it
may be, in the query itself or in a nested one.  In this place of the plan stands the placeholder of
a parameter of this type that stores the value, or, for a collection, the range of those of its
elements. -/
theorem Planner.plan_required {p : Planner} {q : Query} {operation : Operation}
    {caps : Capabilities} {plan : Plan} (h : p.plan q operation caps = .ok plan)
    {address : Address} {what : Interpolation} {type : FieldType}
    (hrequires : (q.expanded (p.context operation caps)).Requires (p.context operation caps)
      address what type) :
    ∃ x, plan.query.at? address = some x ∧
      what.Bound p.conversions address.clause plan.parameters type x := by
  obtain ⟨hyields, -⟩ := Planner.plan_cases h
  exact hrequires.bound rfl hyields

/-- Offers of a table that is built from offers without a given price. -/
def Query.otherOffers : Query :=
  (Query.ofTable "others").withCte "others"
    ((Query.ofSchema "offers" "Offer").filter
      (.not (.isIn (.pin (.int 5)) (.field 0 "prices")))) false

/-- The price is bound as a price, though it is given as a whole number and denied to be there. -/
theorem Planner.plan_required_member :
    ∃ plan, (⟨.offers, .builtin, none, {}⟩ : Planner).plan .otherOffers .all
        Dialect.postgres.capabilities = .ok plan ∧
      ∃ x, plan.query.at? (.nested .withCte 0 (.expr .filter 0 [0, 0])) = some x ∧
        (Interpolation.value (.int 5)).Bound .builtin .filter plan.parameters .float x := by
  let planner : Planner := ⟨.offers, .builtin, none, {}⟩
  let ctx := planner.context .all Dialect.postgres.capabilities
  have hplanned : (planner.plan .otherOffers .all
      Dialect.postgres.capabilities).toOption.isSome = true := by
    decide +kernel
  obtain ⟨plan, hplan⟩ := Option.isSome_iff_exists.mp hplanned
  have hok := Except.toOption_eq_some_iff.mp hplan
  have hmember : (ctx.place [.table "offers" (some "Offer") none] .filter).Requires
      (.isIn (.pin (.int 5)) (.field 0 "prices")) [0] (.value (.int 5)) .float := .member rfl
  have hinside : (Query.otherOffers.expanded ctx).Requires ctx
      (.nested .withCte 0 (.expr .filter 0 ([0] ++ [0]))) (.value (.int 5)) .float :=
    .nested rfl (.inside rfl hmember)
  exact ⟨plan, hok, Planner.plan_required hok hinside⟩

end QueryPlanner
