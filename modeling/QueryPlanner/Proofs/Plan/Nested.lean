import QueryPlanner.Proofs.Plan.Appends

/-!
# The nested queries of a plan

A level nests queries in four of its clauses.  Planning it plans those that are considered, each in
the context of nested queries, and the plans stand where the queries did.

* `Clauses.nested_eq_queries`, `Clauses.mem_nested` — nested queries by clause
* `Clauses.mem_considered_nested` — which of them are planned
* `Query.plan_items` — the items of a planned clause, one by one
* `Query.plan_queries_kept`, `Query.plan_queries` — nested plans are plans of nested queries, one by
  one
-/

namespace QueryPlanner

open HasExprs Binder

variable {σ : Type} {ctx : Context} {ps qs : List BoundParameter}

/-! ### Nested queries by clause -/

theorem Source.queries_items (s : Source σ) :
    s.items.flatMap (Item.gather (fun _ => []) fun q => [q]) = s.nested := by
  cases s with
  | fragment parts =>
    exact (Item.gather_ofExprs _ _ parts).trans (List.flatMap_eq_nil_iff.mpr fun _ _ => rfl)
  | _ => rfl

theorem CteBody.queries_items (b : CteBody σ) :
    b.items.flatMap (Item.gather (fun _ => []) fun q => [q]) = b.nested := by
  cases b with
  | fragment parts =>
    exact (Item.gather_ofExprs _ _ parts).trans (List.flatMap_eq_nil_iff.mpr fun _ _ => rfl)
  | query q => rfl

theorem Join.queries_items (j : Join σ) :
    j.items.flatMap (Item.gather (fun _ => []) fun q => [q]) =
      j.source.toList.flatMap Source.nested := by
  have hon : (Item.ofExprs j.on : List (Item σ)).flatMap
      (Item.gather (fun _ => []) fun q => [q]) = [] :=
    (Item.gather_ofExprs _ _ j.on).trans (List.flatMap_eq_nil_iff.mpr fun _ _ => rfl)
  rw [items, List.flatMap_append, hon, List.append_nil, List.flatMap_assoc]
  exact List.flatMap_congr fun s _ => s.queries_items

/-- The nested queries of a level are those of four of its clauses. -/
theorem Clauses.nested_eq_queries (c : Clauses σ) :
    c.nested = [Clause.withCte, .combination, .fromSource, .join].flatMap c.queries := by
  have hctes : c.queries .withCte = c.ctes.flatMap (·.body.nested) := by
    rw [queries, items, List.flatMap_assoc]
    exact List.flatMap_congr fun cte _ => cte.body.queries_items
  have hcombinations : c.queries .combination = c.combinations.map (·.query) := by
    rw [queries, items, List.flatMap_map, List.map_eq_flatMap]
    rfl
  have hroot : c.queries .fromSource = c.root.toList.flatMap (·.source.nested) := by
    rw [queries, items, List.flatMap_assoc]
    exact List.flatMap_congr fun root _ => root.source.queries_items
  have hjoins : c.queries .join =
      c.joins.flatMap fun j => j.source.toList.flatMap Source.nested := by
    rw [queries, items, List.flatMap_assoc]
    exact List.flatMap_congr fun j _ => j.queries_items
  simp [nested, hctes, hcombinations, hroot, hjoins]

theorem Clauses.mem_queries {c : Clauses σ} {clause : Clause} {q : σ} :
    q ∈ c.queries clause ↔ .nested q ∈ c.items clause := by
  constructor
  · intro h
    obtain ⟨i, hi, hq⟩ := List.mem_flatMap.mp h
    cases i with
    | expr e => cases hq
    | nested q' => exact List.mem_singleton.mp hq ▸ hi
  · exact fun h => List.mem_flatMap.mpr ⟨.nested q, h, List.mem_singleton_self q⟩

theorem Clauses.mem_nested {c : Clauses Query} {q : Query} :
    q ∈ c.nested ↔ ∃ clause, .nested q ∈ c.items clause := by
  refine ⟨fun h => ?_, fun ⟨clause, h⟩ => Query.mem_nested_of_mem_items h⟩
  rw [nested_eq_queries] at h
  obtain ⟨clause, -, hq⟩ := List.mem_flatMap.mp h
  exact ⟨clause, mem_queries.mp hq⟩

/-- Only the sources beside associations are passed over. -/
theorem Clauses.considered_nested_subset {c : Clauses σ} {q : σ} (h : q ∈ c.considered.nested) :
    q ∈ c.nested := by
  have hjoins : q ∈ c.considered.joins.flatMap (fun j => j.source.toList.flatMap Source.nested) →
      q ∈ c.joins.flatMap fun j => j.source.toList.flatMap Source.nested := by
    rw [considered, List.flatMap_map]
    intro hq
    obtain ⟨j, hj, hq⟩ := List.mem_flatMap.mp hq
    refine List.mem_flatMap.mpr ⟨j, hj, ?_⟩
    unfold Join.considered at hq
    cases hassociation : j.association with
    | none => simpa [hassociation] using hq
    | some ref => simp [hassociation] at hq
  rcases List.mem_append.mp h with h | h
  · exact List.mem_append_left _ h
  · exact List.mem_append_right _ (hjoins h)

/-- The queries that a level prepares for planning are those that are considered. -/
theorem Clauses.queries_prepared {c : Clauses σ} {b : Bindings σ} (hb : c.resolve ctx = .ok b)
    (clause : Clause) : (c.prepared b).queries clause = c.considered.queries clause :=
  Clauses.gather_prepared Expr.gathers_nothing hb clause

theorem Clauses.mem_considered_nested {c : Clauses Query} {b : Bindings Query}
    (hb : c.resolve ctx = .ok b) {q : Query} :
    q ∈ c.considered.nested ↔ ∃ clause, .nested q ∈ (c.prepared b).items clause := by
  rw [mem_nested]
  simp only [← mem_queries, queries_prepared hb]

/-! ### Nested plans -/

namespace Query

/-- The items of a planned clause are what its tasks yield, one by one. -/
theorem plan_items {c : Clauses Query} {t : Query} (h : (plan ⟨c⟩ ctx).Yields ps t qs) :
    ∃ b, c.resolve ctx = .ok b ∧ t.clauses.frame = (c.prepared b).frame ∧
      ∀ clause ∈ ctx.operation.clauseOrder,
        List.Forall₂ (fun task i => ∃ rs ts, Task.Performs (ctx.place b.sources)
            (fun q => q.plan (ctx.nested c.queryPrefix)) task rs i ts)
          ((c.prepared b).tasks (ctx.typeOf b.sources) clause) (t.clauses.items clause) := by
  obtain ⟨b, hb, hframe, hkept⟩ := plan_kept h
  refine ⟨b, hb, hframe, fun clause hclause => (hkept clause hclause).imp ?_⟩
  exact fun _ _ ⟨rs, ts, hperforms, _⟩ => ⟨rs, ts, hperforms⟩

/-- **Nested plans** are the plans of the nested queries that are considered, one by one, and the
parameters that each of them leaves are left in the end. -/
theorem plan_queries_kept {c : Clauses Query} {t : Query} (h : (plan ⟨c⟩ ctx).Yields ps t qs) :
    List.Forall₂
      (fun q planned => ∃ rs ts,
        (q.plan (ctx.nested c.queryPrefix)).Yields rs planned ts ∧ ts <+: qs)
      c.considered.nested t.clauses.nested := by
  obtain ⟨b, hb, -, hitems⟩ := plan_kept h
  have hclauses : ∀ clause ∈ [Clause.withCte, .combination, .fromSource, .join],
      List.Forall₂
        (fun q planned => ∃ rs ts,
          (q.plan (ctx.nested c.queryPrefix)).Yields rs planned ts ∧ ts <+: qs)
        (c.considered.queries clause) (t.clauses.queries clause) := by
    intro clause hclause
    have hpreload : clause ≠ .preload := by
      rintro rfl
      simp at hclause
    have hsteps := hitems clause (ctx.operation.mem_clauseOrder.mpr hpreload)
    rw [← Clauses.queries_prepared hb, Clauses.queries, ← Clauses.map_item_tasks, List.flatMap_map]
    refine List.rel_flatMap hsteps fun task i ⟨rs, ts, hperforms, hkept⟩ => ?_
    obtain ⟨_, _, item⟩ := task
    cases item with
    | expr e =>
      cases i with
      | expr a => exact .nil
      | nested planned => cases hperforms
    | nested q =>
      cases i with
      | expr a => cases hperforms
      | nested planned => exact .cons ⟨rs, ts, hperforms, hkept⟩ .nil
  rw [Clauses.nested_eq_queries, Clauses.nested_eq_queries]
  exact List.rel_flatMap (List.forall₂_same.mpr hclauses) fun _ _ h => h

/-- Nested plans are the plans of the nested queries that are considered, one by one. -/
theorem plan_queries {c : Clauses Query} {t : Query} (h : (plan ⟨c⟩ ctx).Yields ps t qs) :
    List.Forall₂
      (fun q planned => ∃ rs ts, (q.plan (ctx.nested c.queryPrefix)).Yields rs planned ts)
      c.considered.nested t.clauses.nested :=
  (plan_queries_kept h).imp fun _ _ ⟨rs, ts, hyields, _⟩ => ⟨rs, ts, hyields⟩

/-- A query that is planned plans its nested queries. -/
theorem plan_nested {c : Clauses Query} {t : Query} (h : (plan ⟨c⟩ ctx).Yields ps t qs) {q : Query}
    (hq : q ∈ c.considered.nested) :
    ∃ rs s ts, (q.plan (ctx.nested c.queryPrefix)).Yields rs s ts := by
  have hqueries := plan_queries h
  obtain ⟨i, hi, rfl⟩ := List.getElem_of_mem hq
  obtain ⟨rs, ts, hyields⟩ := hqueries.get hi (hqueries.length_eq ▸ hi)
  exact ⟨rs, _, ts, hyields⟩

end Query

end QueryPlanner
