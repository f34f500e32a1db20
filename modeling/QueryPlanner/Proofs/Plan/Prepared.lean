import QueryPlanner.Proofs.Plan.Sources

/-!
# What a level is planned as

Before anything is read, a level is as good as another one in which nothing is special any more: its
joins are the bound ones, a condition that is interpolated as a whole is written out, and so are
interpolated orderings and groupings.  What is planned is the items of this level, each read with
the type that its place requires.

* `Clauses.prepared` — the level that is planned in place of a given one
* `Clauses.prepared_edit`, `Clauses.prepared_forall` — its items come from the given one
* `Clauses.tasks` — its items with the types that they are read with
-/

namespace QueryPlanner

open HasExprs

variable {σ τ : Type}

/-! ### Conditions written out -/

/-- A keyword as a test: the field equals the interpolated value. -/
def Expr.keywordTest (ix : Nat) (pair : String × Value) : Expr :=
  (Expr.field ix pair.1).eq (.pin pair.2)

/-- A whole condition about the binding `ix`, written out if it is interpolated. -/
def Expr.opened (ix : Nat) : Expr → Expr
  | .dynamic inner => inner
  | .keywords pairs => Scope.conjunction (pairs.map (keywordTest ix))
  | e => e

/-- The condition of a join at a binding, together with the one declared for it. -/
def Join.condition (conditions : List (Nat × Expr)) (j : Join σ) : Option Expr :=
  Expr.conjunction? (j.on.map (Expr.opened (j.ix.getD 0)))
    ((conditions.lookup (j.ix.getD 0)).map (Expr.opened (j.ix.getD 0)))

/-- A join with its condition written out. -/
def Join.prepared (conditions : List (Nat × Expr)) (j : Join σ) : Join σ :=
  { j with on := j.condition conditions }

/-- A grouping by interpolated names is one by fields of binding 0. -/
def GroupBy.written : GroupBy → GroupBy
  | .exprs es => .exprs es
  | .pinned names => .exprs (names.map (.field 0))

/-- An ordering by interpolated names is one by fields of binding 0. -/
def OrderBy.written : OrderBy → OrderBy
  | .items ordered => .items ordered
  | .pinned names => .items (names.map fun (direction, name) => ⟨direction, .field 0 name⟩)

/-- The level that is planned in place of a level with the given bindings. -/
def Clauses.prepared (c : Clauses σ) (b : Bindings σ) : Clauses σ :=
  { c with
    joins := b.joins.map (Join.prepared b.conditions)
    wheres := rewrite (Expr.opened 0) c.wheres
    groupBys := c.groupBys.map GroupBy.written
    havings := rewrite (Expr.opened 0) c.havings
    orderBys := c.orderBys.map OrderBy.written
    select := c.select.map fun s => { expr := s.expr }
    sources := b.sources }

/-! ### Preparing and replacing -/

/-- A replacement that does not care whether a condition is written out before or after. -/
structure Expr.Transparent (f : Expr → Expr) : Prop where
  opened : ∀ ix e, f (e.opened ix) = (f e).opened ix
  and : ∀ left right, f (left.and right) = (f left).and (f right)
  field : ∀ ix name, f (.field ix name) = .field ix name
  hop : ∀ (hop : Hop) parent ix, f (hop.condition parent ix) = hop.condition parent ix

theorem Expr.transparent_id : Expr.Transparent id :=
  ⟨fun _ _ => rfl, fun _ _ => rfl, fun _ _ => rfl, fun _ _ _ => rfl⟩

section

variable {f : Expr → Expr} {g : σ → τ} (hf : Expr.Transparent f)

include hf

theorem GroupBy.written_rewrite (x : GroupBy) :
    (rewrite f x).written = rewrite f x.written := by
  cases x with
  | exprs es => rfl
  | pinned names => simp [rewrite, written, hf.field]

theorem OrderBy.written_rewrite (x : OrderBy) :
    (rewrite f x).written = rewrite f x.written := by
  cases x with
  | items ordered => rfl
  | pinned names => simp [rewrite, written, hf.field, Ordered.map]

theorem Join.condition_edit (conditions : List (Nat × Expr)) (j : Join σ) :
    (j.edit f g).condition (conditions.map fun declared => (declared.1, f declared.2)) =
      rewrite f (j.condition conditions) := by
  have hlookup : ∀ ix, (conditions.map fun declared => (declared.1, f declared.2)).lookup ix =
      (conditions.lookup ix).map f := by
    intro ix
    induction conditions with
    | nil => rfl
    | cons declared conditions ih =>
      obtain ⟨key, e⟩ := declared
      simp only [List.map_cons, List.lookup_cons]
      cases ix == key <;> simp [ih]
  have hix : (j.edit f g).ix = j.ix := rfl
  have hon : (j.edit f g).on = j.on.map f := rfl
  simp only [condition, hix, hon, hlookup]
  cases j.on <;> cases conditions.lookup (j.ix.getD 0) <;>
    simp [Expr.conjunction?, rewrite, hf.opened, hf.and]

/-- Replacing items before a level is prepared is replacing them after. -/
theorem Clauses.prepared_edit (c : Clauses σ) (b : Bindings σ) :
    (c.edit f g).prepared (b.edit f g) = (c.prepared b).edit f g := by
  have hjoin : ∀ j : Join σ, (j.edit f g).prepared
      (b.conditions.map fun declared => (declared.1, f declared.2)) =
        (j.prepared b.conditions).edit f g := by
    intro j
    unfold Join.prepared
    rw [Join.condition_edit hf]
    rfl
  have hopened : (Expr.opened 0 ∘ f) = f ∘ Expr.opened 0 :=
    funext fun e => (hf.opened 0 e).symm
  have hgroup : (GroupBy.written ∘ rewrite f) = rewrite f ∘ GroupBy.written :=
    funext (GroupBy.written_rewrite hf)
  have horder : (OrderBy.written ∘ rewrite f) = rewrite f ∘ OrderBy.written :=
    funext (OrderBy.written_rewrite hf)
  simp only [prepared, edit, Bindings.edit, rewrite_rewrite, hopened, Clauses.mk.injEq, true_and,
    and_true]
  refine ⟨?_, ?_, ?_, ?_⟩
  · simp only [List.map_map]
    exact List.map_congr_left fun j _ => hjoin j
  · change (c.groupBys.map (rewrite f)).map _ = (c.groupBys.map _).map (rewrite f)
    rw [List.map_map, List.map_map, hgroup]
  · change (c.orderBys.map (rewrite f)).map _ = (c.orderBys.map _).map (rewrite f)
    rw [List.map_map, List.map_map, horder]
  · cases c.select <;> rfl

end

section

variable {P : Expr → Prop}

theorem GroupBy.written_forall (hfield : ∀ ix name, P (.field ix name)) {x : GroupBy}
    (h : ∀ e ∈ HasExprs.exprs x, P e) : ∀ e ∈ HasExprs.exprs x.written, P e := by
  cases x with
  | exprs es => exact h
  | pinned names =>
    intro e he
    obtain ⟨name, -, rfl⟩ := List.mem_map.mp he
    exact hfield 0 name

theorem OrderBy.written_forall (hfield : ∀ ix name, P (.field ix name)) {x : OrderBy}
    (h : ∀ e ∈ exprs x, P e) : ∀ e ∈ exprs x.written, P e := by
  cases x with
  | items ordered => exact h
  | pinned names =>
    intro e he
    obtain ⟨o, ho, he⟩ := List.mem_flatMap.mp he
    obtain ⟨name, -, rfl⟩ := List.mem_map.mp ho
    rw [List.mem_singleton.mp he]
    exact hfield 0 _

/-- What holds of two conditions and passes to both together holds of what they make. -/
theorem Expr.conjunction?_forall {left right : Option Expr}
    (hand : ∀ left right, P left → P right → P (left.and right))
    (hleft : ∀ e, left = some e → P e) (hright : ∀ e, right = some e → P e) :
    ∀ e, conjunction? left right = some e → P e := by
  intro e he
  cases left with
  | none => cases right <;> exact hright e he
  | some l =>
    cases right with
    | none => exact hleft e he
    | some r =>
      obtain rfl := Option.some.inj he
      exact hand l r (hleft l rfl) (hright r rfl)

theorem Join.condition_forall {conditions : List (Nat × Expr)} {j : Join σ}
    (hopened : ∀ ix e, P e → P (e.opened ix))
    (hand : ∀ left right, P left → P right → P (left.and right))
    (hon : ∀ e, j.on = some e → P e) (hconditions : ∀ p ∈ conditions, P p.2) :
    ∀ e, j.condition conditions = some e → P e := by
  refine Expr.conjunction?_forall hand (fun e he => ?_) (fun e he => ?_)
  · obtain ⟨on, hj, rfl⟩ := Option.map_eq_some_iff.mp he
    exact hopened _ on (hon on hj)
  · obtain ⟨on, hdeclared, rfl⟩ := Option.map_eq_some_iff.mp he
    obtain ⟨l₁, l₂, hl, -⟩ := List.lookup_eq_some_iff.mp hdeclared
    refine hopened _ on (hconditions (j.ix.getD 0, on) ?_)
    exact hl ▸ List.mem_append_right _ List.mem_cons_self

end

/-- What holds of the entries of a list, each written out, holds of the list written out. -/
theorem Item.forall_ofExprs_map {X : Type} [HasExprs X] {P : Expr → Prop} {R : σ → Prop}
    {f : X → X} {xs : List X} (hf : ∀ x : X, (∀ e ∈ exprs x, P e) → ∀ e ∈ exprs (f x), P e)
    (h : ∀ i ∈ (Item.ofExprs xs : List (Item σ)), i.Holds P R) :
    ∀ i ∈ (Item.ofExprs (xs.map f) : List (Item σ)), i.Holds P R := by
  rw [forall_ofExprs] at h ⊢
  intro e he
  obtain ⟨x', hx', he⟩ := List.mem_flatMap.mp he
  obtain ⟨x, hx, rfl⟩ := List.mem_map.mp hx'
  exact hf x (fun e he => h e (List.mem_flatMap.mpr ⟨x, hx, he⟩)) e he

/-- What holds of everything in a level and of what the registry and names make, and passes to
conditions that are written out or joined, holds of everything in the prepared level. -/
theorem Clauses.prepared_forall {ctx : Context} {P : Expr → Prop} {R : σ → Prop} {c : Clauses σ}
    {b : Bindings σ} (h : c.resolve ctx = .ok b)
    (hc : ∀ clause, ∀ i ∈ c.items clause, i.Holds P R)
    (hhops : ∀ (hop : Hop) parent ix, P (hop.condition parent ix))
    (hopened : ∀ ix e, P e → P (e.opened ix))
    (hand : ∀ left right, P left → P right → P (left.and right))
    (hfield : ∀ ix name, P (.field ix name)) :
    ∀ clause, ∀ i ∈ (c.prepared b).items clause, i.Holds P R := by
  obtain ⟨hjoins, hconditions⟩ := resolve_forall h (hc .join) hhops
  have hconds : ∀ x : Condition, (∀ e ∈ exprs x, P e) →
      ∀ e ∈ exprs (rewrite (Expr.opened 0) x), P e := by
    intro x hx e he
    rw [exprs_rewrite] at he
    obtain ⟨e', he', rfl⟩ := List.mem_map.mp he
    exact hopened 0 e' (hx e' he')
  intro clause
  cases clause with
  | filter => exact Item.forall_ofExprs_map hconds (hc .filter)
  | having => exact Item.forall_ofExprs_map hconds (hc .having)
  | groupBy => exact Item.forall_ofExprs_map (fun _ => GroupBy.written_forall hfield) (hc .groupBy)
  | orderBy => exact Item.forall_ofExprs_map (fun _ => OrderBy.written_forall hfield) (hc .orderBy)
  | join =>
    intro i hi
    obtain ⟨j', hj', hi⟩ := List.mem_flatMap.mp hi
    obtain ⟨j, hj, rfl⟩ := List.mem_map.mp hj'
    obtain ⟨hsource, hon⟩ := List.forall_mem_append.mp (hjoins j hj)
    rcases List.mem_append.mp hi with hi | hi
    · exact hsource i hi
    · refine Item.forall_ofExprs.mpr (fun e he => ?_) i hi
      have hcondition := Join.condition_forall (j := j) hopened hand (fun e he =>
        Item.forall_ofExprs.mp hon e (by simp [exprs, he])) hconditions
      exact hcondition e (by simpa [Join.prepared, exprs] using he)
  | select =>
    refine Item.forall_ofExprs.mpr fun e he => ?_
    have hselect := Item.forall_ofExprs.mp (hc .select)
    cases hs : c.select with
    | none => simp [Clauses.prepared, hs, exprs] at he
    | some s =>
      have hes : e = s.expr := by simpa [Clauses.prepared, hs, exprs] using he
      exact hselect e (List.mem_flatMap.mpr ⟨s, by simp [hs], hes ▸ List.mem_cons_self⟩)
  | withCte => exact hc .withCte
  | distinct => exact hc .distinct
  | fromSource => exact hc .fromSource
  | windows => exact hc .windows
  | combination => exact hc .combination
  | limit => exact hc .limit
  | offset => exact hc .offset
  | update => exact hc .update
  | preload => exact hc .preload
  | lock => exact hc .lock

/-- What holds of the nested queries of a level holds of those of the prepared level. -/
theorem Clauses.prepared_nested {ctx : Context} {R : σ → Prop} {c : Clauses σ} {b : Bindings σ}
    (hb : c.resolve ctx = .ok b) (h : ∀ clause q, .nested q ∈ c.items clause → R q) :
    ∀ clause, ∀ i ∈ (c.prepared b).items clause, i.Holds (fun _ => True) R := by
  refine prepared_forall hb (fun clause i hi => ?_) (fun _ _ _ => trivial) (fun _ _ _ => trivial)
    (fun _ _ _ _ => trivial) (fun _ _ => trivial)
  cases i with
  | expr e => trivial
  | nested q => exact h clause q hi

/-- A level with the frame of a prepared one has the sources of its clauses. -/
theorem Clauses.bound_of_frame_eq {ctx : Context} {c : Clauses σ} {b : Bindings σ} {d : Clauses τ}
    (hb : c.resolve ctx = .ok b) (h : d.frame = (c.prepared b).frame) : d.Bound := by
  have hroot := congrArg (fun f : Clauses Unit => f.root.map (·.source)) h
  have hjoins := congrArg (fun f : Clauses Unit => f.joins.map fun j => (j.ix, j.source)) h
  refine Bound.congr ?_ ?_ ?_ (resolve_bound hb)
  · simp only [frame, edit, Option.map_map] at hroot
    exact hroot.symm
  · simp only [frame, edit, prepared, List.map_map] at hjoins
    exact hjoins.symm
  · exact (congrArg Clauses.sources h).symm

/-! ### Tasks -/

/-- An item with what it is read for. -/
structure Task (σ : Type) where
  clause : Clause
  /-- The type of an expression; nothing if it belongs to a field that there is not. -/
  expected : Option FieldType
  item : Item σ

/-- The task of an item that is read with a type that its place alone determines. -/
def Item.task (clause : Clause) (expected : FieldType) (i : Item σ) : Task σ :=
  ⟨clause, some expected, i⟩

/-- A task with its item replaced. -/
def Task.map (f : Expr → Expr) (g : σ → τ) (t : Task σ) : Task τ :=
  ⟨t.clause, t.expected, t.item.map f g⟩

/-- The tasks of a join: what its source holds, and its condition. -/
def Join.tasks (j : Join σ) : List (Task σ) :=
  (j.source.toList.flatMap Source.items).map (Item.task .join .any) ++
    (Item.ofExprs j.on).map (Item.task .join .boolean)

/-- The tasks of an update: what it does to each field, with the type that the field gives it. -/
def Update.tasks (typeOf : String → Option FieldType) (u : Update) : List (Task σ) :=
  u.fields.map fun field =>
    ⟨.update, (typeOf field.1).map (Level.updateType u.op), .expr field.2⟩

/-- The tasks of a clause, in reading order, given the types of the fields of binding 0. -/
def Clauses.tasks (typeOf : String → Option FieldType) (c : Clauses σ) :
    Clause → List (Task σ)
  | .join => c.joins.flatMap Join.tasks
  | .update => c.updates.flatMap (Update.tasks typeOf)
  | .filter => (c.items .filter).map (Item.task .filter .boolean)
  | .having => (c.items .having).map (Item.task .having .boolean)
  | .limit => (c.items .limit).map (Item.task .limit .integer)
  | .offset => (c.items .offset).map (Item.task .offset .integer)
  | clause => (c.items clause).map (Item.task clause .any)

theorem Item.map_item_task (clause : Clause) (expected : FieldType) (is : List (Item σ)) :
    (is.map (Item.task clause expected)).map Task.item = is := by
  rw [List.map_map]
  exact List.map_id is

/-- Every item has its task. -/
theorem Clauses.map_item_tasks (typeOf : String → Option FieldType) (c : Clauses σ)
    (clause : Clause) : (c.tasks typeOf clause).map Task.item = c.items clause := by
  cases clause with
  | join =>
    simp only [tasks, items, List.map_flatMap]
    congr 1
    funext j
    simp only [Join.tasks, Join.items, List.map_append, Item.map_item_task]
  | update =>
    simp only [tasks, items, List.map_flatMap, Item.ofExprs, exprs]
    congr 1
    funext u
    rw [Update.tasks, List.map_map, List.map_eq_flatMap]
    rfl
  | _ => exact Item.map_item_task _ _ _

/-- What holds of the items of a level holds of those of its tasks. -/
theorem Clauses.forall_tasks {typeOf : String → Option FieldType} {c : Clauses σ}
    {Q : Item σ → Prop} (h : ∀ clause, ∀ i ∈ c.items clause, Q i) (clauses : List Clause) :
    ∀ task ∈ clauses.flatMap (c.tasks typeOf), Q task.item := by
  intro task htask
  obtain ⟨clause, -, htask⟩ := List.mem_flatMap.mp htask
  exact h clause _ (c.map_item_tasks typeOf clause ▸ List.mem_map_of_mem htask)

theorem Item.map_task (f : Expr → Expr) (g : σ → τ) (clause : Clause) (expected : FieldType)
    (is : List (Item σ)) :
    (is.map (Item.map f g)).map (Item.task clause expected) =
      (is.map (Item.task clause expected)).map (Task.map f g) := by
  rw [List.map_map, List.map_map]
  rfl

/-- Replacing items leaves what they are read for. -/
theorem Clauses.tasks_edit (typeOf : String → Option FieldType) (f : Expr → Expr) (g : σ → τ)
    (c : Clauses σ) (clause : Clause) :
    (c.edit f g).tasks typeOf clause = (c.tasks typeOf clause).map (Task.map f g) := by
  cases clause with
  | join =>
    simp only [tasks, edit, List.flatMap_map, List.map_flatMap]
    congr 1
    funext j
    have hsource : (j.edit f g).source.toList.flatMap Source.items =
        (j.source.toList.flatMap Source.items).map (Item.map f g) := by
      simp only [Join.edit]
      cases j.source <;> simp [Source.items_edit]
    have hon : (j.edit f g).on = rewrite f j.on := rfl
    simp only [Join.tasks, hsource, hon, Item.ofExprs_rewrite f g, Item.map_task, List.map_append]
  | update =>
    simp only [tasks, edit, rewrite, List.flatMap_map, List.map_flatMap]
    congr 1
    funext u
    simp only [Update.tasks, List.map_map]
    rfl
  | _ =>
    simp only [tasks, items_edit]
    exact Item.map_task f g _ _ _

/-- What a task is for, apart from its item. -/
def Task.head (t : Task σ) : Clause × Option FieldType := (t.clause, t.expected)

/-- The frame of a level determines what its items are read for. -/
theorem Clauses.map_head_tasks (typeOf : String → Option FieldType) {c : Clauses σ} {d : Clauses τ}
    (h : c.frame = d.frame) (clause : Clause) :
    (c.tasks typeOf clause).map Task.head = (d.tasks typeOf clause).map Task.head := by
  have hheads := congrArg (fun f : Clauses Unit => (f.tasks typeOf clause).map Task.head) h
  simp only [frame, tasks_edit, List.map_map] at hheads
  exact hheads

end QueryPlanner
