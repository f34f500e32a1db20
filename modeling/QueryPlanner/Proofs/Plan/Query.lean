import QueryPlanner.Planner
import QueryPlanner.Proofs.Plan.Level

/-!
# Planning a query is performing its tasks

Planning reads the clauses of a level in the order of the operation.  A clause is read into its own
place, which no other clause touches, so the planned level is the prepared one with every item
replaced by what its task yields.

* `Level.bindClause_read`, `Level.bindClause_others` — one clause
* `Level.foldlM_bindClause` — one clause after another
* `Query.plan_cases` — a whole level, with its nested queries
-/

namespace QueryPlanner

open HasExprs Binder

variable {σ τ : Type} {ps qs : List BoundParameter}

/-! ### The places of clauses -/

/-- One clause of a level, with nothing in the other places. -/
def Clauses.only (c : Clauses σ) : Clause → Clauses σ
  | .withCte => { ctes := c.ctes }
  | .distinct => { distinct := c.distinct }
  | .select => { select := c.select }
  | .fromSource => { root := c.root }
  | .join => { joins := c.joins }
  | .filter => { wheres := c.wheres }
  | .groupBy => { groupBys := c.groupBys }
  | .having => { havings := c.havings }
  | .windows => { windows := c.windows }
  | .combination => { combinations := c.combinations }
  | .orderBy => { orderBys := c.orderBys }
  | .limit => { limit := c.limit }
  | .offset => { offset := c.offset }
  | .update => { updates := c.updates }
  | .preload => { preloads := c.preloads }
  | .lock => { lock := c.lock }

/-- A level is its clauses and the prefix and the sources for all of them. -/
theorem Clauses.ext_only {c d : Clauses σ} (honly : ∀ clause, c.only clause = d.only clause)
    (hpre : c.queryPrefix = d.queryPrefix) (hsources : c.sources = d.sources) : c = d := by
  cases c
  cases d
  simp only [Clauses.mk.injEq]
  refine ⟨?_, ?_, ?_, ?_, ?_, ?_, ?_, ?_, ?_, ?_, ?_, ?_, ?_, ?_, ?_, ?_, hpre, hsources⟩
  · simpa [only] using honly .fromSource
  · simpa [only] using honly .join
  · simpa [only] using honly .filter
  · simpa [only] using honly .groupBy
  · simpa [only] using honly .having
  · simpa [only] using honly .orderBy
  · simpa [only] using honly .select
  · simpa [only] using honly .distinct
  · simpa [only] using honly .limit
  · simpa [only] using honly .offset
  · simpa [only] using honly .update
  · simpa [only] using honly .windows
  · simpa [only] using honly .combination
  · simpa [only] using honly .withCte
  · simpa [only] using honly .preload
  · simpa [only] using honly .lock

/-- The frame of one clause. -/
def Clauses.part (c : Clauses σ) (clause : Clause) : Clauses Unit := c.frame.only clause

namespace Level

variable {l : Level}

/-- The level that is planned in place of the given one. -/
def prepared (l : Level) : Clauses NestedPlan := l.clauses.prepared l.bindings

/-- A clause of a planned level is that of the prepared level, its tasks performed. -/
def ReadsClause (l : Level) (clause : Clause) (ps : List BoundParameter) (out : Clauses Query)
    (qs : List BoundParameter) : Prop :=
  out.part clause = l.prepared.part clause ∧
    Chain l.Performs (l.prepared.tasks l.typeOf clause) ps (out.items clause) qs

theorem reads_ctes {out : Clauses Query} {ctes : List (Cte Query)}
    (h : (l.clauses.ctes.mapM l.bindCte).Yields ps ctes qs) :
    l.ReadsClause .withCte ps { out with ctes } qs := by
  obtain ⟨hframe, hchain⟩ := yields_mapM_flatMap (R := l.Performs)
    (s := fun c => c.body.items.map (Item.task .withCte .any))
    (t := fun c => c.body.items) (fun c _ ps y qs => performs_bindCte) h
  refine ⟨congrArg (fun y => ({ ctes := y } : Clauses Unit)) hframe, ?_⟩
  rw [← List.map_flatMap] at hchain
  exact hchain

theorem reads_combinations {out : Clauses Query} {combinations : List (Combination Query)}
    (h : (l.clauses.combinations.mapM l.bindCombination).Yields ps combinations qs) :
    l.ReadsClause .combination ps { out with combinations } qs := by
  obtain ⟨hframe, hchain⟩ := yields_mapM_flatMap (R := l.Performs)
    (s := fun c => [Item.task .combination .any (.nested c.query)])
    (t := fun c => [.nested c.query]) (fun c _ ps y qs => performs_bindCombination) h
  refine ⟨congrArg (fun y => ({ combinations := y } : Clauses Unit)) hframe, ?_⟩
  rw [← List.map_eq_flatMap, ← List.map_eq_flatMap] at hchain
  have htasks : l.prepared.tasks l.typeOf .combination = l.clauses.combinations.map
      fun c => Item.task .combination .any (.nested c.query) := List.map_map ..
  rw [htasks]
  exact hchain

theorem reads_root {out : Clauses Query} {root : Option (FromClause Query)}
    (h : (bindOption l.bindRoot l.clauses.root).Yields ps root qs) :
    l.ReadsClause .fromSource ps { out with root } qs := by
  cases hroot : l.clauses.root with
  | none =>
    rw [hroot] at h
    obtain ⟨rfl, rfl⟩ := yields_pure.mp h
    have hprepared : l.prepared.root = none := hroot
    refine ⟨?_, ?_⟩
    · simp [Clauses.part, Clauses.only, Clauses.frame, Clauses.edit, hprepared]
    · simpa [Clauses.tasks, Clauses.items, hprepared] using .nil
  | some r =>
    rw [hroot] at h
    obtain ⟨r', hr, rfl⟩ := yields_map.mp h
    obtain ⟨hframe, hchain⟩ := performs_bindRoot hr
    have hprepared : l.prepared.root = some r := hroot
    refine ⟨?_, ?_⟩
    · simp [Clauses.part, Clauses.only, Clauses.frame, Clauses.edit, hprepared, hframe]
    · simpa [Clauses.tasks, Clauses.items, hprepared] using hchain

theorem reads_joins {out : Clauses Query} {joins : List (Join Query)}
    (h : (l.bindings.joins.mapM l.bindJoin).Yields ps joins qs) :
    l.ReadsClause .join ps { out with joins } qs := by
  obtain ⟨hframe, hchain⟩ := yields_mapM_flatMap (R := l.Performs)
    (u := fun j => (Join.prepared l.bindings.conditions j).edit (fun _ => Expr.hole) fun _ => ())
    (s := fun j => (Join.prepared l.bindings.conditions j).tasks)
    (t := Join.items) (fun j _ ps y qs => performs_bindJoin) h
  refine ⟨congrArg (fun y => ({ joins := y } : Clauses Unit)) ?_, ?_⟩
  · have hprepared : l.prepared.frame.joins = (l.bindings.joins.map
        (Join.prepared l.bindings.conditions)).map (Join.edit (fun _ => Expr.hole) fun _ => ()) :=
      rfl
    rw [hprepared, List.map_map]
    exact hframe
  · have htasks : l.prepared.tasks l.typeOf .join = l.bindings.joins.flatMap
        fun j => (Join.prepared l.bindings.conditions j).tasks := List.flatMap_map ..
    rw [htasks]
    exact hchain

theorem reads_updates {out : Clauses Query} {updates : List Update}
    (h : (l.clauses.updates.mapM l.bindUpdate).Yields ps updates qs) :
    l.ReadsClause .update ps { out with updates } qs := by
  obtain ⟨hframe, hchain⟩ := yields_mapM_flatMap (R := l.Performs)
    (s := Update.tasks l.typeOf) (t := Item.ofExprs)
    (fun u _ ps y qs => performs_bindUpdate) h
  refine ⟨congrArg (fun y => ({ updates := y } : Clauses Unit)) hframe, ?_⟩
  have hitems : (Item.ofExprs updates : List (Item Query)) = updates.flatMap Item.ofExprs :=
    List.map_flatMap ..
  rw [← hitems] at hchain
  exact hchain

/-- Reading a clause keeps its frame and performs its tasks. -/
theorem bindClause_read {out out' : Clauses Query} {clause : Clause}
    (hclause : clause ≠ .preload) (h : (l.bindClause out clause).Yields ps out' qs) :
    l.ReadsClause clause ps out' qs := by
  cases clause
  case preload => exact absurd rfl hclause
  all_goals
    obtain ⟨x, rs, hx, hresult⟩ := yields_bind.mp h
    obtain ⟨rfl, rfl⟩ := yields_pure.mp hresult
  case withCte => exact reads_ctes hx
  case combination => exact reads_combinations hx
  case fromSource => exact reads_root hx
  case join => exact reads_joins hx
  case update => exact reads_updates hx
  case distinct =>
    have hreads := Scope.ReadsAs.option (w := id) (fun _ ps y qs => readsAs_bindDistinct) hx
    rw [Option.map_id] at hreads
    exact ⟨congrArg (fun y => ({ distinct := y } : Clauses Unit)) hreads.1, hreads.performs⟩
  case select =>
    have hreads := Scope.ReadsAs.option (w := fun s => ({ expr := s.expr } : Select))
      (fun _ ps y qs => readsAs_bindSelect) hx
    exact ⟨congrArg (fun y => ({ select := y } : Clauses Unit)) hreads.1, hreads.performs⟩
  case filter =>
    have hreads := readsAs_bindConditions hx
    exact ⟨congrArg (fun y => ({ wheres := y } : Clauses Unit)) hreads.1, hreads.performs⟩
  case having =>
    have hreads := readsAs_bindConditions hx
    exact ⟨congrArg (fun y => ({ havings := y } : Clauses Unit)) hreads.1, hreads.performs⟩
  case groupBy =>
    have hreads := Scope.ReadsAs.list (fun _ _ ps y qs => readsAs_bindGroupBy) hx
    exact ⟨congrArg (fun y => ({ groupBys := y } : Clauses Unit)) hreads.1, hreads.performs⟩
  case orderBy =>
    have hreads := Scope.ReadsAs.list (fun _ _ ps y qs => readsAs_bindOrderBy) hx
    exact ⟨congrArg (fun y => ({ orderBys := y } : Clauses Unit)) hreads.1, hreads.performs⟩
  case windows =>
    have hreads := Scope.ReadsAs.list (w := id) (fun _ _ ps y qs => readsAs_bindWindow) hx
    rw [List.map_id] at hreads
    exact ⟨congrArg (fun y => ({ windows := y } : Clauses Unit)) hreads.1, hreads.performs⟩
  case limit =>
    have hreads := Scope.ReadsAs.option (w := id)
      (fun _ ps y qs => readsAs_bindTop) hx
    rw [Option.map_id] at hreads
    exact ⟨congrArg (fun y => ({ limit := y } : Clauses Unit)) hreads.1, hreads.performs⟩
  case offset =>
    have hreads := Scope.ReadsAs.option (w := id)
      (fun _ ps y qs => readsAs_bindTop) hx
    rw [Option.map_id] at hreads
    exact ⟨congrArg (fun y => ({ offset := y } : Clauses Unit)) hreads.1, hreads.performs⟩
  case lock =>
    have hreads := Scope.ReadsAs.option (w := id) (fun _ ps y qs => readsAs_bindLock) hx
    rw [Option.map_id] at hreads
    exact ⟨congrArg (fun y => ({ lock := y } : Clauses Unit)) hreads.1, hreads.performs⟩

/-- Reading a clause touches no other clause. -/
theorem bindClause_others {out out' : Clauses Query} {clause : Clause}
    (h : (l.bindClause out clause).Yields ps out' qs) :
    (∀ other, other ≠ clause →
      out'.part other = out.part other ∧ out'.items other = out.items other) ∧
    out'.queryPrefix = out.queryPrefix ∧ out'.sources = out.sources := by
  cases clause
  case preload =>
    obtain ⟨rfl, rfl⟩ := yields_pure.mp h
    exact ⟨fun _ _ => ⟨rfl, rfl⟩, rfl, rfl⟩
  all_goals
    obtain ⟨x, rs, -, hresult⟩ := yields_bind.mp h
    obtain ⟨rfl, rfl⟩ := yields_pure.mp hresult
    refine ⟨fun other hne => ?_, rfl, rfl⟩
    cases other
  all_goals first | exact absurd rfl hne | exact ⟨rfl, rfl⟩

/-- Reading clauses in a row, none of them twice, puts each into its place. -/
theorem foldlM_bindClause {clauses : List Clause} (hnodup : clauses.Nodup)
    (hpreload : .preload ∉ clauses) {out out' : Clauses Query}
    (h : (clauses.foldlM l.bindClause out).Yields ps out' qs) :
    (∀ clause ∈ clauses, out'.part clause = l.prepared.part clause) ∧
    Chain l.Performs (clauses.flatMap (l.prepared.tasks l.typeOf)) ps (clauses.flatMap out'.items)
      qs ∧
    (∀ other, other ∉ clauses →
      out'.part other = out.part other ∧ out'.items other = out.items other) ∧
    out'.queryPrefix = out.queryPrefix ∧ out'.sources = out.sources := by
  induction clauses generalizing out ps with
  | nil =>
    rw [List.foldlM_nil] at h
    obtain ⟨rfl, rfl⟩ := yields_pure.mp h
    exact ⟨fun _ hc => (List.not_mem_nil hc).elim, .nil, fun _ _ => ⟨rfl, rfl⟩, rfl, rfl⟩
  | cons clause clauses ih =>
    rw [List.foldlM_cons] at h
    obtain ⟨mid, rs, hclause, hrest⟩ := yields_bind.mp h
    obtain ⟨hfresh, hnodup⟩ := List.nodup_cons.mp hnodup
    rw [List.mem_cons, not_or] at hpreload
    obtain ⟨hpart, hchain⟩ := bindClause_read (Ne.symm hpreload.1) hclause
    obtain ⟨hothers, hpre, hsources⟩ := bindClause_others hclause
    obtain ⟨hparts, hchains, hkept, hpre', hsources'⟩ := ih hnodup hpreload.2 hrest
    obtain ⟨hkeptPart, hkeptItems⟩ := hkept clause hfresh
    refine ⟨fun c hc => ?_, ?_, fun other hother => ?_, hpre'.trans hpre,
      hsources'.trans hsources⟩
    · rcases List.mem_cons.mp hc with rfl | hc
      · exact hkeptPart.trans hpart
      · exact hparts c hc
    · rw [List.flatMap_cons, List.flatMap_cons, hkeptItems]
      exact hchain.append hchains
    · rw [List.mem_cons, not_or] at hother
      obtain ⟨hp, hi⟩ := hkept other hother.2
      obtain ⟨hp', hi'⟩ := hothers other hother.1
      exact ⟨hp.trans hp', hi.trans hi'⟩

/-- **A level is planned by performing its tasks.**  The planned level is the prepared one with what
they yield in the places of its items. -/
theorem bind_cases {t : Query} (h : l.bind.Yields ps t qs) :
    t.clauses.frame = l.prepared.frame ∧
    Chain l.Performs (l.ctx.operation.clauseOrder.flatMap (l.prepared.tasks l.typeOf)) ps
      (l.ctx.operation.clauseOrder.flatMap t.clauses.items) qs := by
  obtain ⟨d, rs, hd, hresult⟩ := yields_bind.mp h
  obtain ⟨rfl, rfl⟩ := yields_pure.mp hresult
  obtain ⟨hparts, hchain, hkept, hpre, hsources⟩ := foldlM_bindClause
    l.ctx.operation.nodup_clauseOrder
    (fun hmem => (l.ctx.operation.mem_clauseOrder.mp hmem) rfl) hd
  refine ⟨Clauses.ext_only (fun clause => ?_) hpre hsources, hchain⟩
  by_cases hclause : clause = .preload
  · rw [hclause]
    have hnot : Clause.preload ∉ l.ctx.operation.clauseOrder :=
      fun hmem => (l.ctx.operation.mem_clauseOrder.mp hmem) rfl
    exact (hkept .preload hnot).1
  · exact hparts clause (l.ctx.operation.mem_clauseOrder.mpr hclause)

end Level

/-! ### Nested queries -/

/-- The scope of a clause of a level with the given sources, apart from messages. -/
def Context.place (ctx : Context) (sources : List BoundSource) (clause : Clause) : Scope :=
  ⟨ctx, sources, ⟨clause, ""⟩⟩

/-- The type of a field of binding 0 of a level with the given sources. -/
def Context.typeOf (ctx : Context) (sources : List BoundSource) (name : String) :
    Option FieldType :=
  ((ctx.place sources .update).fieldType 0 name).toOption

theorem Query.plan_mk (c : Clauses Query) : plan ⟨c⟩ = (c.edit id plan).plan := by
  rw [← Clauses.map_eq_edit]
  exact fold_mk _ c

/-- The level that a query reads when its sources are bound. -/
def Clauses.level (c : Clauses Query) (ctx : Context) (b : Bindings Query) : Level :=
  ⟨ctx, c.edit id Query.plan, b.edit id Query.plan⟩

theorem Clauses.prepared_level (c : Clauses Query) (ctx : Context) (b : Bindings Query) :
    (c.level ctx b).prepared = (c.prepared b).edit id Query.plan :=
  prepared_edit Expr.transparent_id c b

/-- A query is planned if its shape is supported, its sources are bound and its clauses are read. -/
theorem Query.yields_plan_iff {c : Clauses Query} {ctx : Context} {t : Query} :
    (Query.plan ⟨c⟩ ctx).Yields ps t qs ↔
      (c.edit id Query.plan).checkCapabilities ctx.capabilities = .ok () ∧
        ∃ b, c.resolve ctx = .ok b ∧ (c.level ctx b).bind.Yields ps t qs := by
  rw [Query.plan_mk, Clauses.plan]
  constructor
  · intro h
    by_cases hroot : (c.edit id Query.plan).root.isNone
    · simp only [hroot, if_true] at h
      obtain ⟨u, rs, hthrow, -⟩ := yields_bind.mp h
      exact absurd hthrow yields_throw
    · simp only [hroot] at h
      obtain ⟨u, hcheck, hresolve⟩ := yields_lift_bind.mp h
      obtain ⟨b', hb', hlevel⟩ := yields_lift_bind.mp hresolve
      obtain ⟨b, hb, rfl⟩ := Clauses.resolve_edit.mp hb'
      exact ⟨hcheck, b, hb, hlevel⟩
  · rintro ⟨hcheck, b, hb, hlevel⟩
    obtain ⟨root, -, -, hroot, -⟩ := Clauses.resolve_cases hb
    have hsome : (c.edit id Query.plan).root.isNone = false := by simp [Clauses.edit, hroot]
    simp only [hsome, Bool.false_eq_true, if_false]
    exact yields_lift_bind.mpr ⟨(), hcheck,
      yields_lift_bind.mpr ⟨_, Clauses.resolve_edit.mpr ⟨b, hb, rfl⟩, hlevel⟩⟩

/-- **A query is planned by performing its tasks.**  The planned level is the prepared one with what
the tasks yield in the places of its items; the task of a nested query is to plan it. -/
theorem Query.plan_cases {c : Clauses Query} {ctx : Context} {t : Query}
    (h : (Query.plan ⟨c⟩ ctx).Yields ps t qs) :
    ∃ b, c.resolve ctx = .ok b ∧ t.clauses.frame = (c.prepared b).frame ∧
      Chain (Task.Performs (ctx.place b.sources) fun q => q.plan (ctx.nested c.queryPrefix))
        (ctx.operation.clauseOrder.flatMap ((c.prepared b).tasks (ctx.typeOf b.sources))) ps
        (ctx.operation.clauseOrder.flatMap t.clauses.items) qs := by
  obtain ⟨-, b, hb, hlevel⟩ := Query.yields_plan_iff.mp h
  refine ⟨b, hb, ?_⟩
  obtain ⟨hframe, hchain⟩ := Level.bind_cases hlevel
  rw [Clauses.prepared_level] at hframe hchain
  refine ⟨hframe.trans (Clauses.frame_edit ..), ?_⟩
  have htasks : ∀ clauses : List Clause,
      clauses.flatMap (((c.prepared b).edit id Query.plan).tasks (ctx.typeOf b.sources)) =
        (clauses.flatMap ((c.prepared b).tasks (ctx.typeOf b.sources))).map
          (Task.map id Query.plan) := by
    intro clauses
    rw [List.map_flatMap]
    congr 1
    funext clause
    exact Clauses.tasks_edit _ _ _ _ clause
  have hchain' : Chain _ (List.flatMap (((c.prepared b).edit id Query.plan).tasks
      (ctx.typeOf b.sources)) ctx.operation.clauseOrder) ps _ qs := hchain
  rw [htasks] at hchain'
  refine hchain'.of_map.mono fun task _ ps i qs hi => ?_
  obtain ⟨clause, expected, item⟩ := task
  cases item <;> cases i <;> exact hi

/-- A property of every expression in the results of the tasks holds everywhere in the query. -/
theorem Query.all_of_results {P : Expr → Prop} {t : Query} {operation : Operation}
    (h : ∀ i ∈ operation.clauseOrder.flatMap t.clauses.items, i.All P) : t.All P := by
  obtain ⟨d⟩ := t
  refine Query.all_mk.mpr fun clause i hi => h i (List.mem_flatMap.mpr ⟨clause, ?_, hi⟩)
  refine operation.mem_clauseOrder.mpr ?_
  rintro rfl
  cases hi

/-- A plan is what planning the query yields, with its key and what the settings say of it. -/
theorem Planner.plan_iff {p : Planner} {q : Query} {operation : Operation} {caps : Capabilities}
    {plan : Plan} :
    p.plan q operation caps = .ok plan ↔
      (q.plan (p.context operation caps)).Yields [] plan.query plan.parameters ∧
        plan.cacheKey = p.cacheKey (p.context operation caps) plan.query ∧
        plan.hasFingerprint = p.cache.fingerprint := by
  obtain ⟨planned, parameters, key, fingerprint⟩ := plan
  unfold Planner.plan Yields
  cases hrun : (q.plan (p.context operation caps)).run [] with
  | error e => simp [hrun, bind, Except.bind]
  | ok result =>
    simp only [hrun, bind, Except.bind, Except.ok.injEq, Plan.mk.injEq, Prod.ext_iff]
    constructor
    · rintro ⟨rfl, rfl, rfl, rfl⟩
      exact ⟨⟨rfl, rfl⟩, rfl, rfl⟩
    · rintro ⟨⟨rfl, rfl⟩, rfl, rfl⟩
      exact ⟨rfl, rfl, rfl, rfl⟩

/-- A plan is what planning the query yields, with its key. -/
theorem Planner.plan_cases {p : Planner} {q : Query} {operation : Operation} {caps : Capabilities}
    {plan : Plan} (h : p.plan q operation caps = .ok plan) :
    (q.plan (p.context operation caps)).Yields [] plan.query plan.parameters ∧
      plan.cacheKey = p.cacheKey (p.context operation caps) plan.query := by
  obtain ⟨hyields, hkey, -⟩ := plan_iff.mp h
  exact ⟨hyields, hkey⟩

end QueryPlanner
