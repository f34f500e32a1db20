import QueryPlanner.Proofs.Plan.Restated

/-!
# Where interpolated conditions are legal

An interpolated expression or a list of keywords is legal as the whole of a condition.  Wherever
else planning comes across one, it fails: beside other clauses, and below any node, another
interpolated expression included.

* `Expr.SpliceFree` — what is read holds none of them
* `Query.Misplaces` — a query that holds one where it is not legal
* `Query.not_yields_of_misplaces` — such a query is not planned
* `Planner.plan_whole_conditions` — whole plans, for either place
-/

namespace QueryPlanner

open HasExprs Binder

variable {σ : Type} {ctx : Context} {ps qs : List BoundParameter}

/-! ### Expressions -/

/-- An expression without interpolated expressions and keyword lists, at any depth. -/
def Expr.SpliceFree (e : Expr) : Prop := ∀ x ∈ e.walk, x.isSplice = false

theorem Expr.spliceFree_mk {n : Node Expr} :
    Expr.SpliceFree ⟨n⟩ ↔ Expr.isSplice ⟨n⟩ = false ∧ ∀ c ∈ n.children, c.SpliceFree :=
  forall_walk_mk

theorem Expr.spliceFree_pin (v : Value) : Expr.SpliceFree (.pin v) :=
  spliceFree_mk.mpr ⟨rfl, fun _ h => nomatch h⟩

/-- **What is read** holds no interpolated expression and no list of keywords. -/
theorem Scope.spliceFree_of_reads {s : Scope} (e : Expr) : ∀ {expected ps a qs},
    s.Reads e expected ps a qs → e.SpliceFree := by
  refine Expr.induction (P := fun e => ∀ {expected ps a qs},
    s.Reads e expected ps a qs → e.SpliceFree) ?_ e
  intro n ih expected ps a qs h
  refine Expr.spliceFree_mk.mpr ⟨?_, fun c hc => ?_⟩
  · rcases reads_cases h with
      ⟨v, p, rfl, -⟩ | ⟨left, values, left', rs, added, rfl, -⟩ | ⟨hplain, -⟩
    · rfl
    · rfl
    · cases n <;> first | rfl | cases hplain
  · by_cases hpin : ∃ v, c = .pin v
    · obtain ⟨v, rfl⟩ := hpin
      exact Expr.spliceFree_pin v
    · obtain ⟨i, hi⟩ := List.getElem?_of_mem hc
      obtain ⟨type, rs, b, ts, hread, -⟩ := reads_child h hi fun v hv => hpin ⟨v, hv⟩
      exact ih c hc hread

/-- Writing out a condition keeps what is below it. -/
theorem Expr.mem_walk_opened {e x : Expr} (h : x ∈ e.node.children.flatMap walk) (ix : Nat) :
    x ∈ (e.opened ix).walk := by
  obtain ⟨n⟩ := e
  cases n with
  | keywords pairs => cases h
  | dynamic inner =>
    have hinner : x ∈ inner.walk := by simpa [Node.children] using h
    exact hinner
  | _ =>
    rw [opened_of_plain rfl, walk_mk]
    exact List.mem_cons_of_mem _ h

/-! ### Levels -/

theorem GroupBy.mem_exprs_written {x : GroupBy} {e : Expr} (h : e ∈ HasExprs.exprs x) :
    e ∈ HasExprs.exprs x.written := by
  cases x with
  | exprs es => exact h
  | pinned names => cases h

theorem OrderBy.mem_exprs_written {x : OrderBy} {e : Expr} (h : e ∈ exprs x) :
    e ∈ exprs x.written := by
  cases x with
  | items ordered => exact h
  | pinned names => cases h

/-- What is written out of a list of entries is written out entry by entry. -/
theorem HasExprs.mem_exprs_map {X : Type} [HasExprs X] {f : X → X} {e : Expr}
    (hf : ∀ x : X, e ∈ exprs x → e ∈ exprs (f x)) {xs : List X} (h : e ∈ exprs xs) :
    e ∈ exprs (xs.map f) := by
  obtain ⟨x, hx, he⟩ := List.mem_flatMap.mp h
  exact List.mem_flatMap.mpr ⟨f x, List.mem_map_of_mem hx, hf x he⟩

theorem HasExprs.mem_exprs_rewrite {X : Type} [HasExprs X] {f : Expr → Expr} {x : X} {e : Expr}
    (h : e ∈ exprs x) : f e ∈ exprs (rewrite f x) :=
  exprs_rewrite f x ▸ List.mem_map_of_mem h

/-- What planning considers of the joins is what sources of their own hold, and conditions. -/
theorem Clauses.considered_join_cases {c : Clauses σ} {e : Expr}
    (h : .expr e ∈ c.considered.items .join) : ∃ j ∈ c.joins,
      (j.association = none ∧ ∃ s, j.source = some s ∧ .expr e ∈ s.items) ∨ j.on = some e := by
  obtain ⟨j', hj', hitem⟩ := List.mem_flatMap.mp h
  obtain ⟨j, hj, rfl⟩ := List.mem_map.mp hj'
  refine ⟨j, hj, (List.mem_append.mp hitem).imp (fun hsource => ?_) fun hon => ?_⟩
  · obtain ⟨s, hs, he⟩ := List.mem_flatMap.mp hsource
    cases hown : j.association with
    | none => exact ⟨rfl, s, by simpa [Join.considered, hown] using hs, he⟩
    | some ref => simp [Join.considered, hown] at hs
  · simpa [Join.considered, exprs] using Item.expr_mem_ofExprs.mp hon

/-- The join that is declared with a source of its own is bound with it. -/
theorem Clauses.items_prepared_source {c : Clauses σ} {b : Bindings σ} (hb : c.resolve ctx = .ok b)
    {j : Join σ} (hj : j ∈ c.joins) (hown : j.association = none) {s : Source σ}
    (hs : j.source = some s) {i : Item σ} (hi : i ∈ s.items) : i ∈ (c.prepared b).items .join := by
  obtain ⟨-, -, blocks, hflatten, -, -, hbecomes⟩ := resolve_blocks hb
  obtain ⟨k, hk⟩ := List.getElem?_of_mem hj
  obtain ⟨block, hblock, hbecomes⟩ := hbecomes k j hk
  cases hbecomes with
  | along declared => simp [hown] at declared
  | explicit =>
    have hbound : { j with ix := some (k + 1) } ∈ b.joins := by
      rw [hflatten]
      exact List.mem_flatten.mpr ⟨_, List.mem_of_getElem? hblock, List.mem_singleton_self _⟩
    refine List.mem_flatMap.mpr ⟨_, List.mem_map_of_mem hbound, List.mem_append_left _ ?_⟩
    exact List.mem_flatMap.mpr ⟨s, by simp [Join.prepared, hs], hi⟩

/-- A condition that is declared with a join is read as what it is written out as. -/
theorem Join.Keeps.extracts {sources : List BoundSource} {parameters : List BoundParameter}
    {ix : Nat} {j : Join Query} {block : List (Join Query)}
    (h : j.Keeps ctx sources parameters ix block) :
    ∃ own, Extracts ctx sources parameters ix j.on own := by
  cases h with
  | explicit own binding condition => exact ⟨_, condition⟩
  | along declared leads makes places generated binding extracts => exact ⟨_, extracts⟩

namespace Query

section

variable {c : Clauses Query} {t : Query} (h : (plan ⟨c⟩ ctx).Yields ps t qs)

include h

theorem spliceFree_prepared {b : Bindings Query} (hb : c.resolve ctx = .ok b) {clause : Clause}
    {e : Expr} (he : .expr e ∈ (c.prepared b).items clause) : e.SpliceFree := by
  obtain ⟨i, hi⟩ := List.getElem?_of_mem he
  obtain ⟨type, rs, a, ts, hread, -⟩ := plan_expr h hb hi
  exact Scope.spliceFree_of_reads e hread

/-- Beside conditions and joins, nothing is written out before it is read. -/
theorem spliceFree_of_plan {clause : Clause} (hclause : clause ∉ [Clause.filter, .having, .join])
    {e : Expr} (he : .expr e ∈ c.considered.items clause) : e.SpliceFree := by
  obtain ⟨b, hb, -⟩ := plan_cases h
  have hprepared : .expr e ∈ (c.prepared b).items clause := by
    cases clause with
    | filter | having | join => simp at hclause
    | groupBy =>
      exact Item.expr_mem_ofExprs.mpr (mem_exprs_map (fun _ => GroupBy.mem_exprs_written)
        (Item.expr_mem_ofExprs.mp he))
    | orderBy =>
      exact Item.expr_mem_ofExprs.mpr (mem_exprs_map (fun _ => OrderBy.mem_exprs_written)
        (Item.expr_mem_ofExprs.mp he))
    | _ => exact he
  exact spliceFree_prepared h hb hprepared

/-- A condition of `where` or `having` is read as what it is written out as. -/
theorem spliceFree_condition {clause : Clause} (hclause : clause ∈ [Clause.filter, .having])
    {e : Expr} (he : .expr e ∈ c.considered.items clause) : (e.opened 0).SpliceFree := by
  obtain ⟨b, hb, -⟩ := plan_cases h
  have hprepared : .expr (e.opened 0) ∈ (c.prepared b).items clause := by
    rcases List.mem_pair.mp hclause with rfl | rfl <;>
      exact Item.expr_mem_ofExprs.mpr (mem_exprs_rewrite (Item.expr_mem_ofExprs.mp he))
  exact spliceFree_prepared h hb hprepared

/-- The source of a join is read as it is. -/
theorem spliceFree_source {j : Join Query} {s : Source Query} (hj : j ∈ c.joins)
    (hown : j.association = none) (hs : j.source = some s) {e : Expr} (he : .expr e ∈ s.items) :
    e.SpliceFree := by
  obtain ⟨b, hb, -⟩ := plan_cases h
  exact spliceFree_prepared h hb (Clauses.items_prepared_source hb hj hown hs he)

/-- The condition of a join is read as what it is written out as. -/
theorem spliceFree_on {j : Join Query} (hj : j ∈ c.joins) {e : Expr} (he : j.on = some e) :
    ∃ ix, (e.opened ix).SpliceFree := by
  obtain ⟨-, blocks, -, hblocks⟩ := Clauses.keepsConditions_of_plan h
  rw [← c.map_declaredJoins] at hj
  obtain ⟨⟨ix, _⟩, hdeclared, rfl⟩ := List.mem_map.mp hj
  obtain ⟨i, hi⟩ := List.getElem?_of_mem hdeclared
  obtain ⟨block, -, hkeeps⟩ := List.exists_getElem?_of_forall₂ hblocks hi
  obtain ⟨own, hextracts⟩ := hkeeps.extracts
  simp only at he hextracts
  rw [he] at hextracts
  cases hextracts with
  | read read kept =>
    have hread : (ctx.place t.clauses.sources .join).Reads _ _ _ _ _ := .bound _ read
    exact ⟨ix, Scope.spliceFree_of_reads _ hread⟩

/-- Below the whole of what planning considers, nothing is written out. -/
theorem spliceFree_below {clause : Clause} {e x : Expr} (he : .expr e ∈ c.considered.items clause)
    (hx : x ∈ e.node.children.flatMap Expr.walk) : x.isSplice = false := by
  have hself (hfree : e.SpliceFree) : x.isSplice = false := by
    obtain ⟨n⟩ := e
    exact hfree x (Expr.walk_mk n ▸ List.mem_cons_of_mem _ hx)
  have hopened (ix : Nat) (hfree : (e.opened ix).SpliceFree) : x.isSplice = false :=
    hfree x (Expr.mem_walk_opened hx ix)
  cases clause with
  | filter | having => exact hopened 0 (spliceFree_condition h (by simp) he)
  | join =>
    obtain ⟨j, hj, ⟨hown, s, hs, he⟩ | hon⟩ := Clauses.considered_join_cases he
    · exact hself (spliceFree_source h hj hown hs he)
    · obtain ⟨ix, hfree⟩ := spliceFree_on h hj hon
      exact hopened ix hfree
  | _ => exact hself (spliceFree_of_plan h (by simp) he)

end

/-- A query that holds an interpolated expression or a list of keywords where it is not legal, in
what planning considers of it: below the whole of an expression of any clause, as the whole of an
expression that is no condition, or in a nested query. -/
inductive Misplaces : Query → Prop
  | inside {c : Clauses Query} {clause : Clause} {e x : Expr}
    (holds : .expr e ∈ c.considered.items clause) (below : x ∈ e.node.children.flatMap Expr.walk)
    (splice : x.isSplice = true) : Misplaces ⟨c⟩
  | whole {c : Clauses Query} {clause : Clause} {e : Expr}
    (other : clause ∉ [Clause.filter, .having, .join])
    (holds : .expr e ∈ c.considered.items clause) (splice : e.isSplice = true) : Misplaces ⟨c⟩
  | source {c : Clauses Query} {j : Join Query} {s : Source Query} {e : Expr}
    (declared : j ∈ c.joins) (own : j.association = none) (source : j.source = some s)
    (holds : .expr e ∈ s.items) (splice : e.isSplice = true) : Misplaces ⟨c⟩
  | nested {c : Clauses Query} {q : Query} (holds : q ∈ c.considered.nested)
    (misplaces : Misplaces q) : Misplaces ⟨c⟩

/-- **What is misplaced is refused**, whatever is read before. -/
theorem Misplaces.not_yields {q : Query} (h : q.Misplaces) :
    ∀ (ctx : Context) ps t qs, ¬ (q.plan ctx).Yields ps t qs := by
  have hself : ∀ {e : Expr}, e.SpliceFree → e.isSplice = false := by
    rintro ⟨n⟩ hfree
    exact (Expr.spliceFree_mk.mp hfree).1
  induction h with
  | inside holds below splice =>
    intro ctx ps t qs hplan
    simp [spliceFree_below hplan holds below] at splice
  | whole other holds splice =>
    intro ctx ps t qs hplan
    simp [hself (spliceFree_of_plan hplan other holds)] at splice
  | source declared own source holds splice =>
    intro ctx ps t qs hplan
    simp [hself (spliceFree_source hplan declared own source holds)] at splice
  | nested holds _ ih =>
    intro ctx ps t qs hplan
    obtain ⟨rs, u, ts, hyields⟩ := plan_nested hplan holds
    exact ih _ _ _ _ hyields

end Query

/-! ### Whole plans -/

/-- **Interpolated conditions are what they are written out as, and nowhere else anything.**  For
every query, operation and database: if conditions of a query are stated in another way, as the
conjunction of the tests of their keywords or as what they interpolate, the plan is the same one,
tree, parameters and cache key; or both are refused, in the same clause and for the same thing, with
errors that differ in the text they show at most.  A query that holds an interpolated expression or
a list of keywords anywhere else in what is planned of it is refused. -/
theorem Planner.plan_whole_conditions (p : Planner) (q : Query) (operation : Operation)
    (caps : Capabilities) :
    (∀ q', q.Restates q' →
      Except.Alike Eq (p.plan q operation caps) (p.plan q' operation caps)) ∧
    (q.Misplaces → ∃ error, p.plan q operation caps = .error error) := by
  refine ⟨fun q' h => ?_, fun h => ?_⟩
  · have hrun := congrFun (h.silent_plan (p.context operation caps)) []
    refine (Except.alike_of_silent hrun).bind ?_
    rintro ⟨planned, parameters⟩ _ rfl
    exact .ok rfl
  · cases hplan : p.plan q operation caps with
    | error error => exact ⟨error, rfl⟩
    | ok plan => exact absurd (plan_cases hplan).1 (h.not_yields _ _ _ _)

/-- Posts with the owners of their labels and with users, given a condition on each of the three. -/
def Query.ownersWhere (post owner user : Expr) : Query :=
  (((Query.ofSchema "posts" "Post").join
      { Join.along .left 0 "label_owners" with on := some owner }).innerJoin
    (.table "users") user).filter post

/-- Users that are old enough. -/
def Expr.adult : Expr := (Expr.field 2 "age").gt (.pin (.int 18))

/-- Keywords about posts and about the owners of labels are tests of theirs; among other tests they
are refused. -/
theorem Planner.plan_whole_conditions_owners :
    ((⟨.labelled, .builtin, none, {}⟩ : Planner).plan
      (.ownersWhere (.keywords [("id", .int 7), ("id", .int 8)]) (.keywords [("id", .int 5)])
        (.dynamic .adult)) .all Dialect.postgres.capabilities).toOption.isSome ∧
    Except.Alike Eq
      ((⟨.labelled, .builtin, none, {}⟩ : Planner).plan
        (.ownersWhere (.keywords [("id", .int 7), ("id", .int 8)]) (.keywords [("id", .int 5)])
          (.dynamic .adult)) .all Dialect.postgres.capabilities)
      ((⟨.labelled, .builtin, none, {}⟩ : Planner).plan
        (.ownersWhere
          (((Expr.field 0 "id").eq (.pin (.int 7))).and ((Expr.field 0 "id").eq (.pin (.int 8))))
          ((Expr.field 1 "id").eq (.pin (.int 5))) .adult) .all Dialect.postgres.capabilities) ∧
    ∃ error, (⟨.labelled, .builtin, none, {}⟩ : Planner).plan
      (.ownersWhere (((Expr.field 0 "id").eq (.pin (.int 7))).and (.keywords [("id", .int 8)]))
        (.keywords [("id", .int 5)]) .adult) .all Dialect.postgres.capabilities = .error error := by
  refine ⟨by decide +kernel, ?_, ?_⟩
  · refine (Planner.plan_whole_conditions _ _ .all Dialect.postgres.capabilities).1 _ ?_
    refine .of_level ⟨.cons ⟨rfl, .keywords _⟩ .nil, .nil, ?_, rfl⟩ (fun _ h => nomatch h)
    exact .cons ⟨rfl, .mk (.some (.keywords _))⟩ (.cons ⟨rfl, .mk (.some (.dynamic rfl))⟩ .nil)
  · refine (Planner.plan_whole_conditions _ _ .all Dialect.postgres.capabilities).2 ?_
    have hbelow : Expr.keywords [("id", .int 8)] ∈ List.flatMap Expr.walk
        [(Expr.field 0 "id").eq (.pin (.int 7)), .keywords [("id", .int 8)]] := by
      refine List.mem_flatMap.mpr ⟨_, List.mem_cons_of_mem _ List.mem_cons_self, ?_⟩
      rw [Expr.walk_mk]
      exact List.mem_cons_self
    have hholds : ∀ post owner user : Expr, .expr post ∈
        (Query.ownersWhere post owner user).clauses.considered.items .filter :=
      fun post _ _ => List.mem_singleton_self (Item.expr post)
    exact .inside (hholds _ _ _) hbelow rfl

end QueryPlanner
