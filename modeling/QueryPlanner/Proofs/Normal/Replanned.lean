import QueryPlanner.Proofs.Normal.Literals
import QueryPlanner.Proofs.Normal.Preloads
import QueryPlanner.Proofs.Plan.Capabilities
import QueryPlanner.Proofs.Plan.Extraction

/-!
# Queries with compared literals interpolated

Literals that a query compares with stored fields of built-in types may be interpolated, at any
level and in any clause.  If the query is planned and accepted as it stands, it is planned with
these literals interpolated as well: sources are bound as before, and every task can be performed.

* `Query.Interpolated` — a query and what becomes of it when such literals are interpolated
* `Query.Interpolated.filter` — a filter is added to both
* `Query.plan_expr`, `Query.plan_inner` — what planning makes of an item
* `Query.Interpolated.total` — the query with literals interpolated is planned
-/

namespace QueryPlanner

open Binder HasExprs

variable {ctx : Context} {sources : List BoundSource} {ps qs : List BoundParameter}

/-! ### Queries with literals interpolated -/

/-- What may become of an expression of a clause.  In a fragment in place of a common table
expression nothing is interpolated: normalization does not look at its literals. -/
def Clause.Interpolates (clause : Clause) (ctx : Context) (sources : List BoundSource)
    (e e' : Expr) : Prop :=
  (clause = .withCte → e' = e) ∧ e.Interpolated ctx sources e'

theorem Clause.compatible_interpolates (clause : Clause) :
    Expr.Compatible (clause.Interpolates ctx sources) where
  refl e := ⟨fun _ => rfl, .refl e⟩
  opened ix e e' h := ⟨fun hclause => by rw [h.1 hclause],
    Expr.Interpolated.compatible.opened ix e e' h.2⟩
  and left left' right right' hleft hright :=
    ⟨fun hclause => by rw [hleft.1 hclause, hright.1 hclause],
      Expr.Interpolated.compatible.and left left' right right' hleft.2 hright.2⟩

/-- A query and what becomes of it when literals that are compared with stored fields of built-in
types are interpolated, in the sources that its levels are bound to. -/
inductive Query.Interpolated : Context → Query → Query → Prop
  | mk {ctx : Context} {c d : Clauses Query} (frame : c.frame = d.frame)
    (exprs : ∀ b, c.resolve ctx = .ok b → ∀ clause (i : Nat) e e',
      (c.items clause)[i]? = some (.expr e) → (d.items clause)[i]? = some (.expr e') →
        clause.Interpolates ctx b.sources e e')
    (nested : ∀ clause (i : Nat) q q', (c.items clause)[i]? = some (.nested q) →
      (d.items clause)[i]? = some (.nested q') → Interpolated (ctx.nested c.queryPrefix) q q') :
    Interpolated ctx ⟨c⟩ ⟨d⟩

theorem Query.Interpolated.frame {c d : Clauses Query} (h : Interpolated ctx ⟨c⟩ ⟨d⟩) :
    c.frame = d.frame := by
  obtain @⟨_, _, _, frame, -, -⟩ := h
  exact frame

theorem Query.Interpolated.queryPrefix {c d : Clauses Query} (h : Interpolated ctx ⟨c⟩ ⟨d⟩) :
    d.queryPrefix = c.queryPrefix :=
  congrArg (fun f : Clauses Unit => f.queryPrefix) h.frame.symm

/-- The level that is planned in place of one with literals interpolated. -/
theorem Query.Interpolated.prepared {c d : Clauses Query} {b : Bindings Query}
    (h : Interpolated ctx ⟨c⟩ ⟨d⟩) (hb : c.resolve ctx = .ok b) :
    ∃ b', d.resolve ctx = .ok b' ∧ b'.sources = b.sources ∧
      (c.prepared b).Related (fun clause => clause.Interpolates ctx b.sources)
        (Interpolated (ctx.nested c.queryPrefix)) (d.prepared b') := by
  obtain @⟨_, _, _, frame, exprs, nested⟩ := h
  exact (Clauses.Related.of_getElem? frame (exprs b hb) nested).exists_prepared
    Clause.compatible_interpolates hb

theorem Query.Interpolated.refl (q : Query) : ∀ ctx, Interpolated ctx q q := by
  refine Query.induction_items (P := fun q => ∀ ctx, Interpolated ctx q q) ?_ q
  intro c ih ctx
  refine .mk rfl (fun b _ clause i e e' he he' => ?_) fun clause i q q' hq hq' => ?_
  · obtain rfl := Item.expr.inj (Option.some.inj (he.symm.trans he'))
    exact clause.compatible_interpolates.refl e
  · obtain rfl := Item.nested.inj (Option.some.inj (hq.symm.trans hq'))
    exact ih clause q (List.mem_of_getElem? hq) _

/-- A filter that is added comes after the items of its clause. -/
theorem Clauses.getElem?_items_filter {c : Clauses Query} {e : Expr} {clause : Clause} {i : Nat}
    {x : Item Query}
    (h : (items { c with wheres := c.wheres ++ [⟨.and, e⟩] } clause)[i]? = some x) :
    (c.items clause)[i]? = some x ∨
      clause = .filter ∧ i = (c.items .filter).length ∧ x = .expr e := by
  cases clause with
  | filter =>
    have hitems : items { c with wheres := c.wheres ++ [⟨.and, e⟩] } .filter =
        c.items .filter ++ [.expr e] := by
      simp [items, Item.ofExprs, HasExprs.exprs]
    rw [hitems, List.getElem?_append, List.getElem?_singleton] at h
    split at h
    · exact .inl h
    · split at h
      · exact .inr ⟨rfl, by omega, (Option.some.inj h).symm⟩
      · cases h
  | _ => exact .inl h

/-- A filter may be added in which literals are interpolated. -/
theorem Query.Interpolated.filter {q q' : Query} {e e' : Expr} (h : Interpolated ctx q q')
    (he : ∀ b, q.clauses.resolve ctx = .ok b → e.Interpolated ctx b.sources e') :
    Interpolated ctx (q.filter e) (q'.filter e') := by
  obtain @⟨_, c, d, frame, exprs, nested⟩ := h
  have hlength := Clauses.length_items frame .filter
  have hframe : ∀ (c : Clauses Query) e,
      Clauses.frame { c with wheres := c.wheres ++ [⟨.and, e⟩] } =
        { c.frame with wheres := c.frame.wheres ++ [⟨.and, .hole⟩] } := fun c e => by
    simp [Clauses.frame, Clauses.edit, rewrite]
  refine .mk (by rw [hframe, hframe, frame]) (fun b hb clause i x x' hx hx' => ?_) ?_
  · rcases Clauses.getElem?_items_filter hx with hold | ⟨rfl, rfl, hnew⟩
    · rcases Clauses.getElem?_items_filter hx' with hold' | ⟨rfl, rfl, -⟩
      · exact exprs b hb clause i x x' hold hold'
      · rw [← hlength, List.getElem?_length] at hold
        cases hold
    · rcases Clauses.getElem?_items_filter hx' with hold' | ⟨-, -, hnew'⟩
      · rw [hlength, List.getElem?_length] at hold'
        cases hold'
      · obtain rfl := Item.expr.inj hnew
        obtain rfl := Item.expr.inj hnew'
        refine ⟨fun hclause => ?_, he b hb⟩
        cases hclause
  · intro clause i x x' hx hx'
    rcases Clauses.getElem?_items_filter hx with hold | ⟨-, -, hnew⟩
    · rcases Clauses.getElem?_items_filter hx' with hold' | ⟨-, -, hnew'⟩
      · exact nested clause i x x' hold hold'
      · cases hnew'
    · cases hnew

/-! ### What planning makes of an item -/

/-- A task that is related to one that is performed can be performed if what it is to read can be
read and what it is to plan is planned. -/
theorem Task.Performs.feasible {σ τ : Type} {place : Clause → Scope} {plan : σ → Binder Query}
    {plan' : τ → Binder Query} {Q : Expr → Expr → Prop} {R : σ → τ → Prop} {task : Task σ}
    {task' : Task τ} {item : Item Query} (h : task.Performs place plan ps item qs)
    (hhead : task.head = task'.head) (hitem : Item.Related Q R task.item task'.item)
    (hexpr : ∀ e e' type a, Q e e' → item = .expr a → (place task.clause).Reads e type ps a qs →
      (place task.clause).Readable e' type)
    (hnested : ∀ q q' u, task.item = .nested q → R q q' → item = .nested u →
      (plan q).Yields ps u qs → (plan' q').Total) :
    task'.Feasible place plan' := by
  obtain ⟨clause, expected, x⟩ := task
  obtain ⟨clause', expected', x'⟩ := task'
  obtain ⟨rfl, rfl⟩ := Prod.mk.inj hhead
  cases x with
  | expr e =>
    cases x' with
    | nested q' => cases hitem
    | expr e' =>
      cases item with
      | nested u => cases h
      | expr a =>
        obtain ⟨type, htype, hread⟩ := h
        exact ⟨type, htype, hexpr e e' type a hitem rfl hread⟩
  | nested q =>
    cases x' with
    | expr e' => cases hitem
    | nested q' =>
      cases item with
      | expr a => cases h
      | nested u => exact hnested q q' u rfl hitem rfl h

namespace Query

variable {c : Clauses Query} {t : Query} {b : Bindings Query} {clause : Clause} {i : Nat}

theorem plan_frame (h : (plan ⟨c⟩ ctx).Yields ps t qs) (hb : c.resolve ctx = .ok b) :
    t.clauses.sources = b.sources ∧ t.clauses.queryPrefix = c.queryPrefix := by
  obtain ⟨b₁, hb₁, hframe, -⟩ := plan_cases h
  obtain rfl := Except.ok.inj (hb.symm.trans hb₁)
  exact ⟨congrArg (fun f : Clauses Unit => f.sources) hframe,
    congrArg (fun f : Clauses Unit => f.queryPrefix) hframe⟩

/-- Every task is performed, and what it yields is in the place of its item. -/
theorem plan_task (h : (plan ⟨c⟩ ctx).Yields ps t qs) (hb : c.resolve ctx = .ok b)
    {task : Task Query}
    (htask : ((c.prepared b).tasks (ctx.typeOf b.sources) clause)[i]? = some task) :
    ∃ rs item ts, Task.Performs (ctx.place b.sources)
        (fun q => q.plan (ctx.nested c.queryPrefix)) task rs item ts ∧ ts <+: qs ∧
      (t.clauses.items clause)[i]? = some item := by
  obtain ⟨b₁, hb₁, -, hkept⟩ := plan_kept h
  obtain rfl := Except.ok.inj (hb.symm.trans hb₁)
  have hclause : clause ∈ ctx.operation.clauseOrder := by
    refine ctx.operation.mem_clauseOrder.mpr ?_
    rintro rfl
    cases htask
  obtain ⟨item, hitem, rs, ts, hperforms, hts⟩ :=
    List.exists_getElem?_of_forall₂ (hkept clause hclause) htask
  exact ⟨rs, item, ts, hperforms, hts, hitem⟩

/-- Every expression is read in its clause. -/
theorem plan_expr (h : (plan ⟨c⟩ ctx).Yields ps t qs) (hb : c.resolve ctx = .ok b) {e : Expr}
    (he : ((c.prepared b).items clause)[i]? = some (.expr e)) :
    ∃ type rs a ts, (ctx.place b.sources clause).Reads e type rs a ts ∧ ts <+: qs ∧
      (t.clauses.items clause)[i]? = some (.expr a) := by
  rw [← Clauses.map_item_tasks (ctx.typeOf b.sources), List.getElem?_map] at he
  obtain ⟨task, htask, hitem⟩ := Option.map_eq_some_iff.mp he
  obtain ⟨rs, item, ts, hperforms, hts, ha⟩ := plan_task h hb htask
  obtain rfl := Clauses.clause_of_mem_tasks task (List.mem_of_getElem? htask)
  obtain ⟨clause, expected, x⟩ := task
  obtain rfl := hitem
  cases item with
  | expr a =>
    obtain ⟨type, -, hread⟩ := hperforms
    exact ⟨type, rs, a, ts, hread, hts, ha⟩
  | nested q => cases hperforms

/-- Every nested query is planned. -/
theorem plan_inner (h : (plan ⟨c⟩ ctx).Yields ps t qs) (hb : c.resolve ctx = .ok b) {q : Query}
    (hq : ((c.prepared b).items clause)[i]? = some (.nested q)) :
    ∃ rs u ts, (q.plan (ctx.nested c.queryPrefix)).Yields rs u ts ∧ ts <+: qs ∧
      (t.clauses.items clause)[i]? = some (.nested u) := by
  rw [← Clauses.map_item_tasks (ctx.typeOf b.sources), List.getElem?_map] at hq
  obtain ⟨task, htask, hitem⟩ := Option.map_eq_some_iff.mp hq
  obtain ⟨rs, item, ts, hperforms, hts, hu⟩ := plan_task h hb htask
  obtain ⟨clause, expected, x⟩ := task
  obtain rfl := hitem
  cases item with
  | expr a => cases hperforms
  | nested u => exact ⟨rs, u, ts, hperforms, hts, hu⟩

/-- Of an accepted plan, what is read is accepted. -/
theorem Everywhere.passes {a : Expr} (h : t.Everywhere Clauses.Accepted ctx)
    (hclause : clause ≠ .withCte) (ha : (t.clauses.items clause)[i]? = some (.expr a)) :
    (t.clauses.references ctx .select "").Passes a :=
  h.level.references.passes clause hclause a (List.mem_of_getElem? ha)

theorem Everywhere.inner {u : Query} (h : t.Everywhere Clauses.Accepted ctx)
    (hu : (t.clauses.items clause)[i]? = some (.nested u)) :
    u.Everywhere Clauses.Accepted (ctx.nested t.clauses.queryPrefix) :=
  h.nested u (mem_nested_of_mem_items (List.mem_of_getElem? hu))

/-! ### Planning succeeds -/

/-- An expression of an accepted plan can be read with literals interpolated. -/
theorem readable_of_interpolates {e e' a : Expr} {type : FieldType}
    (haccepted : t.Everywhere Clauses.Accepted ctx)
    (h : clause.Interpolates ctx t.clauses.sources e e')
    (ha : (t.clauses.items clause)[i]? = some (.expr a))
    (hread : (ctx.place t.clauses.sources clause).Reads e type ps a qs) :
    (ctx.place t.clauses.sources clause).Readable e' type := by
  refine Scope.readable_interpolated (r := t.clauses.references ctx .select "") h.2 hread ?_
    (.inl rfl)
  by_cases hclause : clause = .withCte
  · exact .inl (h.1 hclause)
  · exact .inr (haccepted.passes hclause ha)

/-- **With literals interpolated, a query is planned** if it is planned and accepted without. -/
theorem Interpolated.total (q : Query) : ∀ (ctx : Context) (q' : Query) ps t qs,
    Interpolated ctx q q' → (q.plan ctx).Yields ps t qs → t.Everywhere Clauses.Accepted ctx →
      (q'.plan ctx).Total := by
  refine Query.induction_items (P := fun q => ∀ (ctx : Context) (q' : Query) ps t qs,
    Interpolated ctx q q' → (q.plan ctx).Yields ps t qs → t.Everywhere Clauses.Accepted ctx →
      (q'.plan ctx).Total) ?_ q
  intro c ih ctx q' ps t qs h hplan haccepted
  obtain ⟨d⟩ := q'
  obtain ⟨hcheck, b, hb, -⟩ := yields_plan_iff.mp hplan
  obtain ⟨b', hb', hsources, hrelated⟩ := h.prepared hb
  obtain ⟨hbound, hqueryPrefix⟩ := plan_frame hplan hb
  have hsupported : (d.edit id plan).checkCapabilities ctx.capabilities = .ok () := by
    rw [Clauses.checkCapabilities_iff, Clauses.supported_edit] at hcheck ⊢
    rw [← Clauses.supported_edit, ← Clauses.frame] at hcheck ⊢
    exact h.frame ▸ hcheck
  refine total_plan hsupported hb' fun clause task' htask' => ?_
  rw [hsources] at htask' ⊢
  obtain ⟨i, hi⟩ := List.mem_iff_getElem?.mp htask'
  obtain ⟨task, htask, hhead, hitem⟩ := List.exists_getElem?_of_forall₂
    (hrelated.tasks (ctx.typeOf b.sources) clause).flip hi
  obtain ⟨rs, item, ts, hperforms, -, hresult⟩ := plan_task hplan hb htask
  have hmem := List.mem_of_getElem? htask
  obtain rfl := Clauses.clause_of_mem_tasks task hmem
  refine hperforms.feasible hhead hitem (fun e e' type a he ha hread => ?_) ?_
  · rw [← hbound] at he hread ⊢
    exact readable_of_interpolates haccepted he (ha ▸ hresult) hread
  · intro q q' u hq hinterpolated hu hyields
    have hknown := Clauses.prepared_nested hb ih task.clause (.nested q)
      (hq ▸ Clauses.map_item_tasks (ctx.typeOf b.sources) _ _ ▸ List.mem_map_of_mem hmem)
    have hinner := haccepted.inner (hu ▸ hresult)
    rw [hqueryPrefix] at hinner
    rw [h.queryPrefix]
    exact hknown _ q' rs u ts hinterpolated hyields hinner

end Query

end QueryPlanner
