import Mathlib.Data.List.Forall2
import QueryPlanner.Proofs.Plan.Considered
import QueryPlanner.Proofs.Plan.Placeholders
import QueryPlanner.Proofs.Plan.Shift

/-!
# Nested plans are plans of their own

A query is planned alike behind any parameters: with the same parameters added and with its
placeholders moved up, or with the same error.  A nested query is planned behind what is read before
it, so what stands in the plan around it is its own plan, moved up.

* `Level.carries_bindClause` — one clause behind other parameters
* `Query.carries_plan` — a query behind other parameters
* `Chain.segments` — the parameters that each of several steps adds
* `Query.plan_shift` — both together
-/

namespace QueryPlanner

open HasExprs Binder

variable {α β σ : Type} {front : List BoundParameter}

/-! ### Entries of clauses -/

namespace Level

/-- A step that yields syntax, moved up behind the parameters `front`. -/
abbrev Moves (front : List BoundParameter) {X : Type} [HasExprs X] (m : Binder X) : Prop :=
  Carries front (rewrite (Expr.shift front.length)) m m

/-- How a nested query is planned, moved up behind the parameters `front`. -/
def MovesNested (front : List BoundParameter) (plan : NestedPlan) : Prop :=
  ∀ ctx, Carries front (Query.shift front.length) (plan ctx) (plan ctx)

/-- An item that is planned alike behind the parameters `front`. -/
abbrev Movable (front : List BoundParameter) : Item NestedPlan → Prop :=
  Item.Holds Expr.Unplaced (MovesNested front)

variable {l : Level} {clause : Clause}

theorem moves_list {X Y : Type} [HasExprs X] [HasExprs Y] {F : Y → Binder X} {xs : List Y}
    (hF : ∀ x, (∀ e ∈ exprs x, e.Unplaced) → Moves front (F x))
    (h : ∀ e ∈ exprs xs, e.Unplaced) : Moves front (xs.mapM F) :=
  .mapM fun x hx => hF x fun e he => h e (List.mem_flatMap.mpr ⟨x, hx, he⟩)

theorem carries_bindOption {F : α → Binder β} {r : β → β} {x : Option α}
    (h : ∀ a, x = some a → Carries front r (F a) (F a)) :
    Carries front (Option.map r) (bindOption F x) (bindOption F x) := by
  cases x with
  | none => exact .pure rfl
  | some a => exact (h a rfl).map fun _ => rfl

theorem moves_option {X Y : Type} [HasExprs X] [HasExprs Y] {F : Y → Binder X} {x : Option Y}
    (hF : ∀ x, (∀ e ∈ exprs x, e.Unplaced) → Moves front (F x))
    (h : ∀ e ∈ exprs x, e.Unplaced) : Moves front (bindOption F x) :=
  carries_bindOption fun y hy => hF y fun e he =>
    h e (List.mem_flatMap.mpr ⟨y, Option.mem_toList.mpr hy, he⟩)

theorem moves_bindTop {expected : FieldType} (e : Expr) (he : e.Unplaced) :
    Moves front (l.bindTop clause expected e) := Scope.carries_bindExpr e he expected

theorem moves_bindCondition {ix : Nat} (e : Expr) (he : e.Unplaced) :
    Moves front (l.bindCondition clause ix e) := Scope.carries_bindCondition e he

theorem moves_bindParts {parts : List (Part Expr)} (h : ∀ e ∈ exprs parts, e.Unplaced) :
    Moves front (l.bindParts clause parts) :=
  Part.carries_mapM_list fun e he => Scope.carries_bindExpr e (h e he) .any

theorem moves_bindItems {items : List (Ordered Expr)} (h : ∀ e ∈ exprs items, e.Unplaced) :
    Moves front (l.bindItems clause items) :=
  moves_list (fun o ho => Ordered.carries_mapM
    (moves_bindTop o.term (ho o.term (List.mem_singleton_self o.term)))) h

theorem moves_bindConditions {cs : List Condition} (h : ∀ e ∈ exprs cs, e.Unplaced) :
    Moves front (l.bindConditions clause cs) :=
  moves_list (fun c hc => (moves_bindCondition c.expr
    (hc c.expr (List.mem_singleton_self c.expr))).bind fun _ => .pure rfl) h

/-- Fields have no placeholders to move. -/
theorem map_shift_fields (n : Nat) (names : List String) :
    (names.map (Expr.field 0)).map (Expr.shift n) = names.map (Expr.field 0) := by
  rw [List.map_map]
  exact List.map_congr_left fun name _ => Expr.shift_mk n _

theorem moves_bindGroupBy (x : GroupBy) (h : ∀ e ∈ exprs x, e.Unplaced) :
    Moves front (l.bindGroupBy x) := by
  cases x with
  | exprs es =>
    have hes : Carries front (List.map (Expr.shift front.length))
        (es.mapM (l.bindTop .groupBy .any)) (es.mapM (l.bindTop .groupBy .any)) :=
      .mapM fun e he => moves_bindTop e (h e he)
    exact hes.map fun _ => rfl
  | pinned names => exact .pure (congrArg GroupBy.exprs (map_shift_fields _ names))

theorem moves_bindOrderBy (x : OrderBy) (h : ∀ e ∈ exprs x, e.Unplaced) :
    Moves front (l.bindOrderBy x) := by
  cases x with
  | items items => exact (moves_bindItems h).map fun _ => rfl
  | pinned names =>
    refine .pure (congrArg OrderBy.items ?_)
    simp only [rewrite, List.map_map]
    exact List.map_congr_left fun name _ => congrArg (Ordered.mk name.1) (Expr.shift_mk _ _)

theorem moves_bindDistinct (x : Distinct) (h : ∀ e ∈ exprs x, e.Unplaced) :
    Moves front (l.bindDistinct x) := by
  cases x with
  | all => exact .pure rfl
  | on items => exact (moves_bindItems h).map fun _ => rfl

theorem moves_bindWindow (x : String × Window Expr) (h : ∀ e ∈ exprs x, e.Unplaced) :
    Moves front (l.bindWindow x) :=
  (Window.carries_mapM fun e he => moves_bindTop e (h e he)).bind fun _ => .pure rfl

theorem moves_bindSelect (x : Select) (h : ∀ e ∈ exprs x, e.Unplaced) :
    Moves front (l.bindSelect x) :=
  (moves_bindTop x.expr (h x.expr List.mem_cons_self)).bind fun _ => .pure rfl

theorem moves_bindLock (x : Lock) (h : ∀ e ∈ exprs x, e.Unplaced) :
    Moves front (l.bindLock x) := by
  cases x with
  | literal text => exact .pure rfl
  | fragment parts => exact (moves_bindParts h).map fun _ => rfl

theorem moves_bindUpdate (u : Update) (h : ∀ e ∈ exprs u, e.Unplaced) :
    Moves front (l.bindUpdate u) := by
  have hfields : Moves front (u.fields.mapM (l.bindAssignment u.op)) := by
    refine moves_list (fun field hfield => ?_) h
    refine Carries.lift_bind fun type _ => ?_
    exact (Scope.carries_bindExpr field.2 (hfield field.2 (List.mem_singleton_self field.2)) _).bind
      fun _ => .pure rfl
  exact hfields.bind fun _ => .pure rfl

/-! ### Entries that nest queries -/

theorem carries_bindNested {plan : NestedPlan} (h : MovesNested front plan) :
    Carries front (Query.shift front.length) (l.bindNested plan) (l.bindNested plan) := h _

theorem carries_bindSource {s : Source NestedPlan} (h : ∀ i ∈ s.items, Movable front i) :
    Carries front (Source.edit (Expr.shift front.length) (Query.shift front.length))
      (l.bindSource clause s) (l.bindSource clause s) := by
  cases s with
  | table name | schema table name => exact .pure rfl
  | subquery plan =>
    exact (carries_bindNested (h _ (List.mem_singleton_self _))).map fun _ => rfl
  | fragment parts => exact (moves_bindParts (Item.forall_ofExprs.mp h)).map fun _ => rfl

theorem carries_bindRoot {r : FromClause NestedPlan} (h : ∀ i ∈ r.source.items, Movable front i) :
    Carries front (FromClause.edit (Expr.shift front.length) (Query.shift front.length))
      (l.bindRoot r) (l.bindRoot r) :=
  (carries_bindSource h).bind fun _ => .pure rfl

theorem carries_bindCte {c : Cte NestedPlan} (h : ∀ i ∈ c.body.items, Movable front i) :
    Carries front (Cte.edit (Expr.shift front.length) (Query.shift front.length))
      (l.bindCte c) (l.bindCte c) := by
  obtain ⟨name, body, recursive⟩ := c
  cases body with
  | query plan =>
    refine Carries.bind (r := CteBody.edit (Expr.shift front.length) (Query.shift front.length))
      ?_ fun _ => .pure rfl
    exact (carries_bindNested (h _ (List.mem_singleton_self _))).map fun _ => rfl
  | fragment parts =>
    refine Carries.bind (r := CteBody.edit (Expr.shift front.length) (Query.shift front.length))
      ?_ fun _ => .pure rfl
    exact (moves_bindParts (Item.forall_ofExprs.mp h)).map fun _ => rfl

theorem carries_bindCombination {c : Combination NestedPlan} (h : MovesNested front c.query) :
    Carries front (Combination.map (Query.shift front.length))
      (l.bindCombination c) (l.bindCombination c) :=
  (carries_bindNested h).bind fun _ => .pure rfl

theorem rewrite_shift_conjunction? (n : Nat) (left right : Option Expr) :
    rewrite (Expr.shift n) (Expr.conjunction? left right) =
      Expr.conjunction? (rewrite (Expr.shift n) left) (rewrite (Expr.shift n) right) := by
  cases left <;> cases right <;> simp [rewrite, Expr.conjunction?, Expr.shift_and]

theorem carries_bindJoin {j : Join NestedPlan} (h : ∀ i ∈ j.items, Movable front i)
    (hconditions : ∀ declared ∈ l.bindings.conditions, declared.2.Unplaced) :
    Carries front (Join.edit (Expr.shift front.length) (Query.shift front.length))
      (l.bindJoin j) (l.bindJoin j) := by
  rw [bindJoin_eq]
  obtain ⟨hsource, hon⟩ := List.forall_mem_append.mp h
  refine (carries_bindOption fun s hs => carries_bindSource fun i hi =>
    hsource i (List.mem_flatMap.mpr ⟨s, Option.mem_toList.mpr hs, hi⟩)).bind fun source => ?_
  refine (moves_option (fun e he => moves_bindCondition e (he e (List.mem_singleton_self e)))
    (Item.forall_ofExprs.mp hon)).bind fun on => ?_
  refine (carries_bindOption fun e he => moves_bindCondition e ?_).bind fun declared => .pure ?_
  · obtain ⟨l₁, l₂, hl, -⟩ := List.lookup_eq_some_iff.mp he
    exact hconditions (_, e) (hl ▸ List.mem_append_right _ List.mem_cons_self)
  · simp only [Join.edit, rewrite_shift_conjunction?]
    rfl

/-! ### Clauses -/

/-- **One clause** is read alike behind any parameters. -/
theorem carries_bindClause (hitems : ∀ clause, ∀ i ∈ l.clauses.items clause, Movable front i)
    (hjoins : ∀ j ∈ l.bindings.joins, ∀ i ∈ j.items, Movable front i)
    (hconditions : ∀ declared ∈ l.bindings.conditions, declared.2.Unplaced)
    (out : Clauses Query) (clause : Clause) :
    Carries front (Clauses.edit (Expr.shift front.length) (Query.shift front.length))
      (l.bindClause out clause)
      (l.bindClause (out.edit (Expr.shift front.length) (Query.shift front.length)) clause) := by
  cases clause with
  | withCte =>
    have hctes := fun c (hc : c ∈ l.clauses.ctes) => carries_bindCte (l := l) fun i hi =>
      hitems .withCte i (List.mem_flatMap.mpr ⟨c, hc, hi⟩)
    exact (Carries.mapM hctes).bind fun _ => .pure rfl
  | combination =>
    have hcombinations := fun c (hc : c ∈ l.clauses.combinations) =>
      carries_bindCombination (l := l) (c := c) (hitems .combination _ (List.mem_map_of_mem hc))
    exact (Carries.mapM hcombinations).bind fun _ => .pure rfl
  | fromSource =>
    refine (carries_bindOption fun r hr => carries_bindRoot fun i hi => ?_).bind fun _ => .pure rfl
    exact hitems .fromSource i (List.mem_flatMap.mpr ⟨r, Option.mem_toList.mpr hr, hi⟩)
  | join =>
    exact (Carries.mapM fun j hj => carries_bindJoin (hjoins j hj) hconditions).bind
      fun _ => .pure rfl
  | distinct =>
    exact (moves_option moves_bindDistinct (Item.forall_ofExprs.mp (hitems .distinct))).bind
      fun _ => .pure rfl
  | select =>
    exact (moves_option moves_bindSelect (Item.forall_ofExprs.mp (hitems .select))).bind
      fun _ => .pure rfl
  | filter =>
    exact (moves_bindConditions (Item.forall_ofExprs.mp (hitems .filter))).bind fun _ => .pure rfl
  | having =>
    exact (moves_bindConditions (Item.forall_ofExprs.mp (hitems .having))).bind fun _ => .pure rfl
  | groupBy =>
    exact (moves_list moves_bindGroupBy (Item.forall_ofExprs.mp (hitems .groupBy))).bind
      fun _ => .pure rfl
  | orderBy =>
    exact (moves_list moves_bindOrderBy (Item.forall_ofExprs.mp (hitems .orderBy))).bind
      fun _ => .pure rfl
  | windows =>
    exact (moves_list moves_bindWindow (Item.forall_ofExprs.mp (hitems .windows))).bind
      fun _ => .pure rfl
  | limit =>
    exact (moves_option (fun e he => moves_bindTop e (he e (List.mem_singleton_self e)))
      (Item.forall_ofExprs.mp (hitems .limit))).bind fun _ => .pure rfl
  | offset =>
    exact (moves_option (fun e he => moves_bindTop e (he e (List.mem_singleton_self e)))
      (Item.forall_ofExprs.mp (hitems .offset))).bind fun _ => .pure rfl
  | lock =>
    exact (moves_option moves_bindLock (Item.forall_ofExprs.mp (hitems .lock))).bind
      fun _ => .pure rfl
  | update =>
    exact (moves_list moves_bindUpdate (Item.forall_ofExprs.mp (hitems .update))).bind
      fun _ => .pure rfl
  | preload => exact .pure rfl

/-- A whole level is planned alike behind any parameters. -/
theorem carries_bind (hitems : ∀ clause, ∀ i ∈ l.clauses.items clause, Movable front i)
    (hjoins : ∀ j ∈ l.bindings.joins, ∀ i ∈ j.items, Movable front i)
    (hconditions : ∀ declared ∈ l.bindings.conditions, declared.2.Unplaced) :
    Carries front (Query.shift front.length) l.bind l.bind := by
  -- the level that clauses are read into holds nothing yet
  refine (Carries.foldlM (fun out clause _ =>
    carries_bindClause hitems hjoins hconditions out clause) _).bind fun planned => .pure ?_
  exact Query.edit_mk _ planned

end Level

/-! ### Queries -/

/-- The items of a level without placeholders are planned alike behind any parameters, if its nested
queries are. -/
theorem Clauses.movable_level {c : Clauses Query} {ctx : Context} {b : Bindings Query}
    (hb : c.resolve ctx = .ok b) (hnone : Query.slots .all ⟨c⟩ = [])
    (hnested : ∀ clause q, .nested q ∈ c.items clause → q.slots .all = [] →
      Level.MovesNested front q.plan) :
    (∀ clause, ∀ i ∈ (c.level ctx b).clauses.items clause, Level.Movable front i) ∧
    (∀ j ∈ (c.level ctx b).bindings.joins, ∀ i ∈ j.items, Level.Movable front i) ∧
    ∀ declared ∈ (c.level ctx b).bindings.conditions, declared.2.Unplaced := by
  have hitems : ∀ clause, ∀ i ∈ (c.edit id Query.plan).items clause, Level.Movable front i := by
    intro clause i hi
    rw [Clauses.items_edit] at hi
    obtain ⟨declared, hdeclared, rfl⟩ := List.mem_map.mp hi
    have hunplaced := Query.unplaced_items hnone clause declared hdeclared
    cases declared with
    | expr e => exact hunplaced
    | nested q => exact hnested clause q hdeclared hunplaced
  have hhops : ∀ (hop : Hop) parent ix, Expr.Unplaced (hop.condition parent ix) :=
    fun hop parent ix => Expr.details_of_inert Detail.sparesInert_numbers _
      (hop.inert_condition parent ix)
  exact ⟨hitems, Clauses.resolve_forall (Clauses.resolve_edit.mpr ⟨b, hb, rfl⟩) (hitems .join)
    hhops⟩

/-- **A query without placeholders** is planned alike behind any parameters. -/
theorem Query.carries_plan (q : Query) : q.slots .all = [] → ∀ front,
    Level.MovesNested front q.plan := by
  refine Query.induction_items (P := fun q => q.slots .all = [] → ∀ front,
    Level.MovesNested front q.plan) ?_ q
  intro c ih hnone front ctx
  rw [Query.plan_mk]
  refine Carries.refusing _ _ (Carries.lift_bind fun _ _ => Carries.lift_bind fun b' hb' => ?_)
  obtain ⟨b, hb, rfl⟩ := Clauses.resolve_edit.mp hb'
  obtain ⟨hitems, hjoins, hconditions⟩ := Clauses.movable_level hb hnone
    fun clause q hq hunplaced => ih clause q hq hunplaced front
  exact Level.carries_bind hitems hjoins hconditions

/-! ### Nested plans -/

/-- Each of several steps adds a segment of its own: what it says of the parameters before it and of
those that it adds, it says of some segment of all parameters in the end. -/
theorem Chain.segments {R : α → List BoundParameter → β → List BoundParameter → Prop}
    {S : α → β → List BoundParameter → List BoundParameter → Prop} {xs : List α} {ys : List β}
    {ps qs : List BoundParameter} (h : Chain R xs ps ys qs)
    (hR : ∀ x ∈ xs, ∀ ps y qs, R x ps y qs → ∃ own, qs = ps ++ own ∧ S x y ps own) :
    ∃ added, qs = ps ++ added ∧ List.Forall₂ (fun x y => ∃ before own after,
      qs = ps ++ before ++ own ++ after ∧ S x y (ps ++ before) own) xs ys := by
  induction h with
  | nil => exact ⟨[], (List.append_nil _).symm, .nil⟩
  | cons head tail ih =>
    obtain ⟨own, rfl, hown⟩ := hR _ List.mem_cons_self _ _ _ head
    obtain ⟨added, rfl, hrest⟩ := ih fun x hx => hR x (List.mem_cons_of_mem _ hx)
    refine ⟨own ++ added, List.append_assoc .., .cons ⟨[], own, added, by simp, by simpa⟩ ?_⟩
    refine hrest.imp fun x y ⟨before, own', after, hqs, hS⟩ => ?_
    exact ⟨own ++ before, own', after, by simpa using hqs, by simpa using hS⟩

/-- Related concatenations of pieces of equal lengths have related pieces. -/
theorem List.forall₂_of_flatMap {ι : Type} {R : α → β → Prop} {f : ι → List α} {g : ι → List β} :
    ∀ {xs : List ι}, (∀ x ∈ xs, (f x).length = (g x).length) →
      List.Forall₂ R (xs.flatMap f) (xs.flatMap g) → ∀ x ∈ xs, List.Forall₂ R (f x) (g x)
  | x :: xs, hlen, h, z, hz => by
    rw [List.flatMap_cons, List.flatMap_cons] at h
    have hhead := List.forall₂_take_append _ _ _ h
    have htail := List.forall₂_drop_append _ _ _ h
    rw [← hlen x List.mem_cons_self, List.take_left] at hhead
    rw [← hlen x List.mem_cons_self, List.drop_left] at htail
    rcases List.mem_cons.mp hz with rfl | hz
    · exact hhead
    · exact List.forall₂_of_flatMap (fun y hy => hlen y (List.mem_cons_of_mem x hy)) htail z hz

/-- The nested queries of a clause, in reading order. -/
def Clauses.queries (c : Clauses σ) (clause : Clause) : List σ :=
  (c.items clause).flatMap (Item.gather (fun _ => []) fun q => [q])

/-- A query that has been planned behind the parameters `before`, with the parameters `own`: the
plan that it has alone, with its placeholders moved up. -/
def Query.PlannedAlone (ctx : Context) (q planned : Query) (before own : List BoundParameter) :
    Prop :=
  ∃ alone, (q.plan ctx).run [] = .ok (alone, own) ∧ planned = alone.shift before.length

/-- To perform a task is to add parameters, and to plan a nested query as it is planned alone. -/
theorem Task.Performs.alone {ctx : Context} {place : Clause → Scope} {t : Task Query}
    {ps qs : List BoundParameter} {i : Item Query}
    (h : t.Performs place (fun q => q.plan ctx) ps i qs)
    (ht : t.item.Holds Expr.Unplaced fun q => q.slots .all = []) :
    ∃ own, qs = ps ++ own ∧
      List.Forall₂ (fun q planned => Query.PlannedAlone ctx q planned ps own)
        (t.item.gather (fun _ => []) fun q => [q]) (i.gather (fun _ => []) fun q => [q]) := by
  obtain ⟨clause, expected, item⟩ := t
  cases item with
  | expr e =>
    cases i with
    | nested planned => cases h
    | expr a =>
      obtain ⟨type, -, hread⟩ := h
      obtain ⟨own, hqs⟩ := hread.adds ht
      exact ⟨own, hqs, .nil⟩
  | nested q =>
    cases i with
    | expr a => cases h
    | nested planned =>
      obtain ⟨alone, own, halone, hplanned, hqs⟩ := (q.carries_plan ht ps ctx).alone h
      exact ⟨own, hqs, .cons ⟨alone, halone, hplanned⟩ .nil⟩

/-- Gathering nested queries does not see whether conditions are written out. -/
theorem Expr.gathers_nothing : Expr.Gathers (fun _ => ([] : List σ)) where
  opened _ _ := rfl
  and _ _ := rfl
  inert _ _ := rfl

/-- **Planning into a list of parameters.**  Take a query without placeholders, planned in any
context behind any parameters `front`.  It fails as it does with no parameters before it; or its
plan is the one that it has then, with every placeholder moved up by the number of parameters in
`front`, and its parameters are the same, behind `front`.

So every nested query of a plan, in whatever clause it stands, is planned alone: there are
parameters `own` such that it is the plan of its original as a query by itself, in the context of
nested queries, with the parameters `own` and its placeholders moved up by the number of parameters
that stand before `own`. -/
theorem Query.plan_shift (q : Query) (ctx : Context) (front : List BoundParameter)
    (hquery : q.slots .all = []) :
    (q.plan ctx).run front =
      ((q.plan ctx).run []).map (fun plan => (plan.1.shift front.length, front ++ plan.2)) ∧
    ∀ plan parameters, (q.plan ctx).run front = .ok (plan, parameters) → ∀ clause,
      List.Forall₂ (fun inner planned => ∃ before own after,
          parameters = front ++ before ++ own ++ after ∧
          inner.PlannedAlone (ctx.nested q.clauses.queryPrefix) planned (front ++ before) own)
        (q.clauses.considered.queries clause) (plan.clauses.queries clause) := by
  have hcarries := q.carries_plan hquery front ctx []
  rw [List.append_nil] at hcarries
  refine ⟨hcarries, fun plan parameters hplan clause => ?_⟩
  obtain ⟨c⟩ := q
  obtain ⟨b, hb, hframe, hchain⟩ := Query.plan_cases hplan
  have hknown := Query.prepared_unplaced hb hquery fun _ _ _ h => h
  obtain ⟨added, -, hsegments⟩ := hchain.segments fun task htask ps i qs hperforms =>
    hperforms.alone (Clauses.forall_tasks hknown _ task htask)
  by_cases hclause : clause = .preload
  · rw [hclause]
    exact .nil
  have hclauses := List.forall₂_of_flatMap (fun other _ => by
    rw [← Clauses.length_items hframe.symm, ← Clauses.map_item_tasks, List.length_map])
    hsegments clause (ctx.operation.mem_clauseOrder.mpr hclause)
  have hqueries : c.considered.queries clause =
      (((c.prepared b).tasks (ctx.typeOf b.sources) clause).map Task.item).flatMap
        (Item.gather (fun _ => []) fun q => [q]) := by
    rw [Clauses.map_item_tasks]
    exact (Clauses.gather_prepared Expr.gathers_nothing hb clause).symm
  rw [hqueries, List.flatMap_map]
  refine List.rel_flatMap hclauses fun task i hrelated => ?_
  obtain ⟨before, own, after, hparameters, halone⟩ := hrelated
  exact halone.imp fun q planned h => ⟨before, own, after, hparameters, h⟩

/-- Users of two ages. -/
def Query.usersOfAges : Query :=
  (Query.ofTable "users").filter (.isIn (.field 0 "age") (.pin (.list [.int 18, .int 21])))

/-- Posts of a title, combined with users of two ages. -/
def Query.titledOrOfAges : Query :=
  ((Query.ofTable "posts").filter ((Expr.field 0 "title").eq (.pin (.string "t")))).combine .union
    .usersOfAges

/-- Behind one parameter, the title gets the second place and the ages get the third and fourth. -/
theorem Query.plan_shift_combined :
    ∃ plan parameters planned before own after,
      (Query.titledOrOfAges.plan (.reading .empty)).run [⟨.int 7, .integer, .limit⟩] =
        .ok (plan, parameters) ∧
      plan.slots .all = [⟨1, 1⟩, ⟨2, 2⟩] ∧ plan.clauses.queries .combination = [planned] ∧
      parameters = [⟨.int 7, .integer, .limit⟩] ++ before ++ own ++ after ∧
      Query.usersOfAges.PlannedAlone ((Context.reading .empty).nested none) planned
        ([⟨.int 7, .integer, .limit⟩] ++ before) own := by
  have hslots : ((Query.titledOrOfAges.plan (.reading .empty)).run
      [⟨.int 7, .integer, .limit⟩]).toOption.map (·.1.slots .all) = some [⟨1, 1⟩, ⟨2, 2⟩] := by
    decide +kernel
  obtain ⟨⟨plan, parameters⟩, hrun, hplanned⟩ := Option.map_eq_some_iff.mp hslots
  have hok := Except.toOption_eq_some_iff.mp hrun
  have hqueries := (Query.plan_shift _ _ _ (by decide +kernel)).2 plan parameters hok .combination
  have hcombined : Query.titledOrOfAges.clauses.considered.queries .combination =
      [Query.usersOfAges] := rfl
  rw [hcombined] at hqueries
  obtain ⟨planned, rest, ⟨before, own, after, hparameters, halone⟩, hrest, heq⟩ :=
    List.forall₂_cons_left_iff.mp hqueries
  rw [List.forall₂_nil_left_iff.mp hrest] at heq
  exact ⟨plan, parameters, planned, before, own, after, hok, hplanned, heq, hparameters, halone⟩

end QueryPlanner
