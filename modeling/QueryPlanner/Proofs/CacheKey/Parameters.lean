import QueryPlanner.Proofs.CacheKey.Demands
import QueryPlanner.Proofs.CacheKey.Faithful

/-!
# Equal keys, parameters of the same kinds

Which parameters a query demands can be told from its plan, and even from the plan without what keys
leave out, as long as the annotated types are known: of these a key holds the text only.

* `Query.demands` — types and clauses of the parameters, in order
* `Query.plan_demands` — they are those that planning adds
* `Query.demands_settled` — what keys leave out does not matter
* `Planner.kinds_of_cacheKey_eq` — plans with one key and the same annotated types have parameters
  of the same types and clauses
-/

namespace QueryPlanner

open HasExprs

variable {σ τ υ : Type}

/-! ### Demands of a query -/

/-- The parameters for a task, given those for nested queries. -/
def Task.demands (place : Clause → Scope) (nested : σ → List (FieldType × Clause)) (t : Task σ) :
    List (FieldType × Clause) :=
  match t.item with
  | .expr e => (t.expected.map ((place t.clause).demands e)).getD []
  | .nested q => nested q

/-- The parameters for a level, given those for nested queries in their contexts. -/
def Clauses.demands (ctx : Context) (nested : σ → Context → List (FieldType × Clause))
    (c : Clauses σ) : List (FieldType × Clause) :=
  (ctx.operation.clauseOrder.flatMap (c.tasks (ctx.typeOf c.sources))).flatMap
    (Task.demands (ctx.place c.sources) fun q => nested q (ctx.nested c.queryPrefix))

/-- The types and clauses of the parameters for a query, as far as they are single ones. -/
def Query.demands : Query → Context → List (FieldType × Clause) :=
  fold fun c ctx => c.demands ctx id

/-- What a level with replaced items demands. -/
theorem Clauses.demands_edit (ctx : Context) (f : Expr → Expr) (g : σ → τ)
    (nested : τ → Context → List (FieldType × Clause)) (c : Clauses σ) :
    (c.edit f g).demands ctx nested =
      (ctx.operation.clauseOrder.flatMap (c.tasks (ctx.typeOf c.sources))).flatMap fun t =>
        (t.map f g).demands (ctx.place c.sources) fun q => nested q (ctx.nested c.queryPrefix) := by
  have htasks : ctx.operation.clauseOrder.flatMap ((c.edit f g).tasks (ctx.typeOf c.sources)) =
      (ctx.operation.clauseOrder.flatMap (c.tasks (ctx.typeOf c.sources))).map (Task.map f g) := by
    simp only [List.map_flatMap, ← tasks_edit]
  have hsources : (c.edit f g).sources = c.sources := rfl
  have hpre : (c.edit f g).queryPrefix = c.queryPrefix := rfl
  rw [demands, hsources, hpre, htasks, List.flatMap_map]

/-- Levels with replaced items demand the same if the items do. -/
theorem Clauses.demands_edit_congr {ctx : Context} {c : Clauses σ} {f f' : Expr → Expr}
    {g : σ → τ} {g' : σ → υ} {nested : τ → Context → List (FieldType × Clause)}
    {nested' : υ → Context → List (FieldType × Clause)}
    (h : ∀ clause, ∀ i ∈ c.items clause, i.Holds
      (fun e => ∀ (s : Scope) type, s.demands (f e) type = s.demands (f' e) type)
      fun q => ∀ ctx, nested (g q) ctx = nested' (g' q) ctx) :
    (c.edit f g).demands ctx nested = (c.edit f' g').demands ctx nested' := by
  rw [demands_edit, demands_edit]
  refine List.flatMap_congr fun t ht => ?_
  have hitem := forall_tasks h _ t ht
  obtain ⟨clause, expected, item⟩ := t
  cases item with
  | expr e =>
    cases expected with
    | none => rfl
    | some type => exact hitem (ctx.place c.sources clause) type
  | nested q => exact hitem (ctx.nested c.queryPrefix)

theorem Query.demands_mk (c : Clauses Query) (ctx : Context) :
    demands ⟨c⟩ ctx = c.demands ctx demands := by
  have hfold : demands ⟨c⟩ = fun ctx => (c.map demands).demands ctx id := fold_mk _ c
  rw [hfold, Clauses.map_eq_edit]
  refine Eq.trans ?_ (congrArg (Clauses.demands ctx demands) c.edit_id)
  refine Clauses.demands_edit_congr fun clause i hi => ?_
  cases i with
  | expr e => exact fun _ _ => rfl
  | nested q => exact fun _ => rfl

/-! ### Planning adds what is demanded -/

/-- Tasks that add parameters of known kinds add them in a row.  What they add may be told from
their results. -/
theorem Chain.kinds_tasks
    {R : Task σ → List BoundParameter → Item τ → List BoundParameter → Prop}
    {tasks : List (Task σ)} {results : List (Task τ)} {items : List (Item τ)}
    {ps qs : List BoundParameter} {S : Item τ → Prop} {k : Task τ → List (FieldType × Clause)}
    (h : Chain R tasks ps items qs) (hheads : results.map Task.head = tasks.map Task.head)
    (hitems : results.map Task.item = items) (hS : ∀ i ∈ items, S i)
    (hR : ∀ t ∈ tasks, ∀ (r : Task τ) ps qs, r.head = t.head → R t ps r.item qs → S r.item →
      qs.map (·.kind) = ps.map (·.kind) ++ k r) :
    qs.map (·.kind) = ps.map (·.kind) ++ results.flatMap k := by
  induction h generalizing results with
  | nil =>
    obtain rfl := List.map_eq_nil_iff.mp hitems
    rw [List.flatMap_nil, List.append_nil]
  | cons head _ ih =>
    obtain ⟨r, rest, rfl, rfl, hrest⟩ := List.map_eq_cons_iff.mp hitems
    rw [List.map_cons, List.map_cons, List.cons.injEq] at hheads
    have hhead := hR _ List.mem_cons_self r _ _ hheads.1 head (hS _ List.mem_cons_self)
    have htail := ih hheads.2 hrest (fun i hi => hS i (List.mem_cons_of_mem _ hi))
      fun t ht => hR t (List.mem_cons_of_mem _ ht)
    rw [htail, hhead, List.append_assoc, List.flatMap_cons]

/-- A task that reads something without placeholders adds what its result demands. -/
theorem Task.performs_demands {place : Clause → Scope} {ctx : Context} {t : Task Query}
    {r : Task Query} {ps qs : List BoundParameter} (hhead : r.head = t.head)
    (hperforms : t.Performs place (fun q => q.plan ctx) ps r.item qs)
    (hitem : t.item.Holds (fun e => e.details .numbers = []) fun q => ∀ (ctx : Context) ps t qs,
      (q.plan ctx).Yields ps t qs → t.All Expr.RangeFree →
        qs.map (·.kind) = ps.map (·.kind) ++ (t.edit Expr.repin).demands ctx)
    (hrange : r.item.All Expr.RangeFree) :
    qs.map (·.kind) = ps.map (·.kind) ++
      (r.map Expr.repin (Query.edit Expr.repin)).demands place fun q => q.demands ctx := by
  obtain ⟨clause, expected, item⟩ := t
  obtain ⟨clause', expected', result⟩ := r
  obtain ⟨rfl, rfl⟩ := Prod.mk.inj hhead
  revert hrange
  refine Task.performs_cases (S := fun i => i.All Expr.RangeFree → qs.map (·.kind) =
    ps.map (·.kind) ++ (Task.mk clause' expected'
      (i.map Expr.repin (Query.edit Expr.repin))).demands place fun q => q.demands ctx)
    hperforms hitem (fun e type a hnone htype hread hrange => ?_)
    fun q t hq hyields hrange => hq ctx ps t qs hyields hrange
  obtain rfl : expected' = some type := htype
  rw [Scope.reads_demands e type ps a qs hread hrange, ← Scope.demands_without,
    ← Scope.reads_repin e hnone type ps a qs hread hrange]
  rfl

/-- **Planning a query** that has no placeholder yet adds the parameters that its plan demands, if
the plan holds no range. -/
theorem Query.plan_demands (q : Query) : q.slots .all = [] → ∀ (ctx : Context) ps t qs,
    (q.plan ctx).Yields ps t qs → t.All Expr.RangeFree →
      qs.map (·.kind) = ps.map (·.kind) ++ (t.edit Expr.repin).demands ctx := by
  refine Query.induction_items (P := fun q => q.slots .all = [] → ∀ (ctx : Context) ps t qs,
    (q.plan ctx).Yields ps t qs → t.All Expr.RangeFree →
      qs.map (·.kind) = ps.map (·.kind) ++ (t.edit Expr.repin).demands ctx) ?_ q
  rintro c ih hnone ctx ps ⟨d⟩ qs h hrange
  obtain ⟨b, hb, hframe, hchain⟩ := Query.plan_cases h
  have hknown := Query.prepared_unplaced hb hnone ih
  have hsources := congrArg Clauses.sources hframe
  have hpre := congrArg Clauses.queryPrefix hframe
  change d.sources = b.sources at hsources
  change d.queryPrefix = c.queryPrefix at hpre
  have hheads : (ctx.operation.clauseOrder.flatMap (d.tasks (ctx.typeOf b.sources))).map
      Task.head = (ctx.operation.clauseOrder.flatMap
        ((c.prepared b).tasks (ctx.typeOf b.sources))).map Task.head := by
    simp only [List.map_flatMap, Clauses.map_head_tasks _ hframe]
  have hitems : (ctx.operation.clauseOrder.flatMap (d.tasks (ctx.typeOf b.sources))).map
      Task.item = ctx.operation.clauseOrder.flatMap d.items := by
    simp only [List.map_flatMap, Clauses.map_item_tasks]
  have hall : ∀ i ∈ ctx.operation.clauseOrder.flatMap d.items, i.All Expr.RangeFree := by
    intro i hi
    obtain ⟨clause, -, hi⟩ := List.mem_flatMap.mp hi
    exact Query.all_mk.mp hrange clause i hi
  have hkinds := hchain.kinds_tasks hheads hitems hall
    fun t ht r ps qs hhead hperforms hrange => Task.performs_demands hhead hperforms
      (Clauses.forall_tasks hknown _ t ht) hrange
  rw [hkinds, Query.edit_mk, Query.demands_mk, Clauses.demands_edit, hsources, hpre]

/-! ### What keys leave out -/

theorem Clauses.demands_plain (ctx : Context) (nested : σ → Context → List (FieldType × Clause))
    (c : Clauses σ) : c.plain.demands ctx nested = c.demands ctx nested := by
  have hjoin : ∀ (place : Clause → Scope) (inner : σ → List (FieldType × Clause)) (j : Join σ),
      j.plain.tasks.flatMap (Task.demands place inner) =
        j.tasks.flatMap (Task.demands place inner) := by
    intro place inner j
    obtain ⟨qualifier, source, on, association, tablePrefix, ix⟩ := j
    simp only [Join.tasks, List.flatMap_append]
    congr 1
    cases on <;> rfl
  have hclause : ∀ (place : Clause → Scope) (inner : σ → List (FieldType × Clause))
      (typeOf : String → Option FieldType) (clause : Clause),
      (c.plain.tasks typeOf clause).flatMap (Task.demands place inner) =
        (c.tasks typeOf clause).flatMap (Task.demands place inner) := by
    intro place inner typeOf clause
    cases clause with
    | join =>
      simp only [tasks, plain, List.flatMap_map, List.flatMap_assoc]
      exact List.flatMap_congr fun j _ => hjoin place inner j
    | fromSource =>
      simp only [tasks, items, plain]
      cases c.root <;> rfl
    | _ => rfl
  rw [demands, demands, List.flatMap_assoc, List.flatMap_assoc]
  exact List.flatMap_congr fun clause _ => hclause _ _ _ clause

/-- **What keys leave out** of a plan, types aside, does not matter for what it demands. -/
theorem Query.demands_settled {form : List BoundSource → LiteralForm} (q : Query) : ∀ ctx,
    ((q.settled form).edit Expr.repin).demands ctx = (q.edit Expr.repin).demands ctx := by
  refine Query.induction_items (P := fun q => ∀ ctx,
    ((q.settled form).edit Expr.repin).demands ctx = (q.edit Expr.repin).demands ctx) ?_ q
  intro c ih ctx
  have hplain : c.plain.edit Expr.repin (Query.edit Expr.repin) =
      (c.edit Expr.repin (Query.edit Expr.repin)).plain := (Clauses.plain_edit _ rfl c).symm
  rw [settled_mk, edit_mk, edit_mk, Clauses.edit_edit, demands_mk, demands_mk,
    ← Clauses.demands_plain ctx demands (c.edit _ _), ← hplain]
  refine Clauses.demands_edit_congr fun clause i hi => ?_
  cases i with
  | expr e => exact fun s type => s.demands_repin_settle e type
  | nested q =>
    rcases Clauses.mem_items_plain hi with hi | hi
    · exact ih clause q hi
    · cases hi

/-- **Plans with one key have parameters of the same kinds.**  For all queries without placeholders
of their own that a planner plans for an operation with equal keys: if the planned queries annotate
the same types, and not just types of the same text, then their parameters are equally many and
agree one by one in type and clause. -/
theorem Planner.kinds_of_cacheKey_eq (p : Planner) (q₁ q₂ : Query) (operation : Operation)
    (caps : Capabilities) (plan₁ plan₂ : Plan) (nodes : List KeyNode)
    (hq₁ : q₁.slots .all = []) (hq₂ : q₂.slots .all = [])
    (h₁ : p.plan q₁ operation caps = .ok plan₁) (h₂ : p.plan q₂ operation caps = .ok plan₂)
    (hkey₁ : plan₁.cacheKey = .key nodes) (hkey₂ : plan₂.cacheKey = .key nodes)
    (htypes : plan₁.query.details .annotations operation =
      plan₂.query.details .annotations operation) :
    plan₁.parameters.map (·.kind) = plan₂.parameters.map (·.kind) := by
  obtain ⟨hplanned₁, hlegible₁, hcode₁, hslots₁⟩ := Planner.plan_keyed hq₁ h₁ hkey₁
  obtain ⟨hplanned₂, hlegible₂, hcode₂, hslots₂⟩ := Planner.plan_keyed hq₂ h₂ hkey₂
  have hkinds₁ := Query.plan_demands q₁ hq₁ _ _ _ _ (Planner.plan_cases h₁).1
    fun e he => (hlegible₁ e he).rangeFree
  have hkinds₂ := Query.plan_demands q₂ hq₂ _ _ _ _ (Planner.plan_cases h₂).1
    fun e he => (hlegible₂ e he).rangeFree
  obtain ⟨-, hcanonical⟩ := Query.canonical_eq_of_code_eq hplanned₁ hplanned₂ hlegible₁ hlegible₂
    (hcode₁.symm.trans hcode₂) hslots₁ hslots₂
  have hsettled := Query.ext_details .annotations _ _ operation hcanonical (by
    rw [Query.details_settled Detail.sparesInert_annotations,
      Query.details_settled Detail.sparesInert_annotations, htypes])
  rw [hkinds₁, hkinds₂, ← Query.demands_settled plan₁.query, hsettled, Query.demands_settled]

/-- The values and a prefix that is written out where it is the default make no difference. -/
theorem Planner.kinds_of_cacheKey_eq_prefixed :
    ∃ plan₁ plan₂ nodes,
      blog.plan ((Query.likedPosts 18 .integer).fromPrefix "blog") .all
        Dialect.postgres.capabilities = .ok plan₁ ∧ plan₁.cacheKey = .key nodes ∧
      blog.plan (Query.likedPosts 99 .integer) .all
        Dialect.postgres.capabilities = .ok plan₂ ∧ plan₂.cacheKey = .key nodes ∧
      plan₁.parameters.map (·.kind) = plan₂.parameters.map (·.kind) := by
  have hcached : (blog.plan ((Query.likedPosts 18 .integer).fromPrefix "blog") .all
      Dialect.postgres.capabilities).toOption.map (·.cacheKey.text?.isSome) = some true := by
    decide +kernel
  have hsame : (blog.plan ((Query.likedPosts 18 .integer).fromPrefix "blog") .all
      Dialect.postgres.capabilities).toOption.map (·.cacheKey) =
        (blog.plan (Query.likedPosts 99 .integer) .all
          Dialect.postgres.capabilities).toOption.map (·.cacheKey) := by
    decide +kernel
  have htypes₁ : (blog.plan ((Query.likedPosts 18 .integer).fromPrefix "blog") .all
      Dialect.postgres.capabilities).toOption.map (·.query.details .annotations .all) =
        some [.integer] := by
    decide +kernel
  have htypes₂ : (blog.plan (Query.likedPosts 99 .integer) .all
      Dialect.postgres.capabilities).toOption.map (·.query.details .annotations .all) =
        some [.integer] := by
    decide +kernel
  obtain ⟨plan₁, plan₂, nodes, h₁, h₂, hkey₁, hkey₂⟩ := plans_of_cacheKey_eq hcached hsame
  rw [h₁] at htypes₁
  rw [h₂] at htypes₂
  exact ⟨plan₁, plan₂, nodes, h₁, hkey₁, h₂, hkey₂,
    Planner.kinds_of_cacheKey_eq _ _ _ .all _ plan₁ plan₂ nodes (by decide +kernel)
      (by decide +kernel) h₁ h₂ hkey₁ hkey₂
      ((Option.some.inj htypes₁).trans (Option.some.inj htypes₂).symm)⟩

/-- Posts, at most as many as an expression says. -/
def Query.limitedPosts (limit : Expr) : Query :=
  (Query.ofTable "posts").modify ({ · with limit := some limit })

/-- Two plannings with one key that differ in something else. -/
theorem Planner.plans_ne_of_cacheKey_eq {γ : Type} {x y : Except PlanError Plan} {u : Plan → γ}
    (hcached : x.toOption.map (·.cacheKey.text?.isSome) = some true)
    (hsame : x.toOption.map (·.cacheKey) = y.toOption.map (·.cacheKey))
    (hne : x.toOption.map u ≠ y.toOption.map u) :
    ∃ plan₁ plan₂ nodes, x = .ok plan₁ ∧ y = .ok plan₂ ∧ plan₁.cacheKey = .key nodes ∧
      plan₂.cacheKey = .key nodes ∧ u plan₁ ≠ u plan₂ := by
  obtain ⟨plan₁, plan₂, nodes, h₁, h₂, hkey₁, hkey₂⟩ := plans_of_cacheKey_eq hcached hsame
  rw [h₁, h₂] at hne
  exact ⟨plan₁, plan₂, nodes, h₁, h₂, hkey₁, hkey₂, fun h => hne (congrArg some h)⟩

/-- A key alone does not tell the parameters.  A custom type that is spelled like another one is
keyed like it; and a query with a placeholder of its own is keyed like one that interpolates a value
there. -/
theorem Planner.kinds_ne_of_cacheKey_eq :
    (∃ plan₁ plan₂ nodes,
      blog.plan (Query.likedPosts 18 .integer) .all Dialect.postgres.capabilities = .ok plan₁ ∧
      blog.plan (Query.likedPosts 18 (.custom "integer")) .all
        Dialect.postgres.capabilities = .ok plan₂ ∧
      plan₁.cacheKey = .key nodes ∧ plan₂.cacheKey = .key nodes ∧
      plan₁.parameters.map (·.kind) ≠ plan₂.parameters.map (·.kind)) ∧
    ∃ plan₁ plan₂ nodes,
      blog.plan (Query.limitedPosts (.param 0)) .all Dialect.postgres.capabilities = .ok plan₁ ∧
      blog.plan (Query.limitedPosts (.pin (.int 1))) .all
        Dialect.postgres.capabilities = .ok plan₂ ∧
      plan₁.cacheKey = .key nodes ∧ plan₂.cacheKey = .key nodes ∧
      plan₁.parameters.length ≠ plan₂.parameters.length := by
  refine ⟨plans_ne_of_cacheKey_eq ?_ ?_ ?_, plans_ne_of_cacheKey_eq ?_ ?_ ?_⟩
  · decide +kernel
  · decide +kernel
  · decide +kernel
  · decide +kernel
  · decide +kernel
  · decide +kernel

end QueryPlanner
