import QueryPlanner.Proofs.CacheKey.Faithful
import QueryPlanner.Proofs.Plan.Extraction

/-!
# Which plans have a key

An interpolated collection that is tested for membership becomes a run of placeholders, whose length
is data.  Nothing else does, and a query with such a run has no key.  So whether a plan has one can
be told from the query: it has none if planning comes upon the test of a collection, at whatever
depth, and be the collection empty.

* `Expr.CollectionFree` — an expression without such a test
* `Query.considered` — what planning comes upon in a query
* `Query.plan_rangeFree` — a plan has runs where its query tests collections
* `Planner.plan_uncacheable` — which plans have no key
-/

namespace QueryPlanner

open HasExprs Binder

variable {α β σ : Type} {ps qs : List BoundParameter}

/-- What is asked of all results is asked of all steps, if each result answers for its step. -/
theorem Chain.forall_iff {R : α → List BoundParameter → β → List BoundParameter → Prop}
    {P : α → Prop} {Q : β → Prop} {xs : List α} {ys : List β} (h : Chain R xs ps ys qs)
    (hR : ∀ x ∈ xs, ∀ ps y qs, R x ps y qs → (Q y ↔ P x)) :
    (∀ y ∈ ys, Q y) ↔ ∀ x ∈ xs, P x := by
  induction h with
  | nil => simp
  | cons head _ ih =>
    rw [List.forall_mem_cons, List.forall_mem_cons]
    exact and_congr (hR _ List.mem_cons_self _ _ _ head)
      (ih fun x hx => hR x (List.mem_cons_of_mem _ hx))

/-! ### Expressions -/

/-- A membership test of an interpolated collection. -/
def Node.testsCollection : Node Expr → Bool
  | .isIn _ (.pin (.list _)) => true
  | _ => false

/-- An expression that tests no interpolated collection. -/
def Expr.CollectionFree (e : Expr) : Prop := ∀ x ∈ e.walk, x.node.testsCollection = false

namespace Expr

theorem collectionFree_mk {n : Node Expr} :
    CollectionFree ⟨n⟩ ↔ n.testsCollection = false ∧ ∀ c ∈ n.children, c.CollectionFree :=
  forall_walk_mk

/-- The membership tests of interpolated collections in an expression. -/
def collectionTests (e : Expr) : List Expr := e.walk.filter (·.node.testsCollection)

theorem collectionTests_eq_nil {e : Expr} : e.collectionTests = [] ↔ e.CollectionFree := by
  simp [collectionTests, CollectionFree, List.filter_eq_nil_iff]

theorem collectionTests_mk {n : Node Expr} (hn : n.testsCollection = false) :
    collectionTests ⟨n⟩ = n.children.flatMap collectionTests := by
  rw [collectionTests, walk_mk, List.filter_cons_of_neg (by simp [hn]), List.filter_flatMap]
  rfl

theorem collectionTests_binary (op : BinaryOp) (left right : Expr) :
    (Expr.binary op left right).collectionTests =
      left.collectionTests ++ right.collectionTests := by
  rw [Expr.binary, collectionTests_mk rfl]
  simp [Node.children]

theorem collectionTests_keywordTest (ix : Nat) (pair : String × Value) :
    (keywordTest ix pair).collectionTests = [] := by
  rw [keywordTest, Expr.eq, collectionTests_binary, Expr.field, Expr.pin, collectionTests_mk rfl,
    collectionTests_mk rfl]
  rfl

theorem collectionTests_conjunction (es : List Expr) :
    (Scope.conjunction es).collectionTests = es.flatMap collectionTests := by
  have hfold : ∀ (es : List Expr) (first : Expr), (es.foldl Expr.and first).collectionTests =
      first.collectionTests ++ es.flatMap collectionTests := by
    intro es
    induction es with
    | nil => simp
    | cons e es ih =>
      intro first
      rw [List.foldl_cons, ih, Expr.and, collectionTests_binary, List.flatMap_cons,
        List.append_assoc]
  cases es with
  | nil => exact collectionTests_mk rfl
  | cons e es => exact hfold es e

theorem collectionTests_of_inert {e : Expr} (he : e.Inert) : e.collectionTests = [] := by
  revert he
  refine Expr.induction (P := fun e => e.Inert → e.collectionTests = []) ?_ e
  intro n ih he
  obtain ⟨-, hchildren⟩ := inert_mk.mp he
  have hn : n.testsCollection = false := by
    cases n with
    | isIn left right =>
      obtain ⟨m⟩ := right
      have hright := (inert_mk.mp (hchildren ⟨m⟩ (List.mem_cons_of_mem _ List.mem_cons_self))).1
      cases m with
      | pin => cases hright
      | _ => rfl
    | _ => rfl
  rw [collectionTests_mk hn, List.flatMap_eq_nil_iff]
  exact fun c hc => ih c hc (hchildren c hc)

/-- The tests in a condition stay when it is written out. -/
theorem gathers_collectionTests : Gathers collectionTests where
  opened ix e := by
    obtain ⟨n⟩ := e
    cases n with
    | dynamic inner =>
      have hopened : collectionTests (.dynamic inner) = inner.collectionTests := by
        rw [collectionTests_mk rfl]
        exact List.append_nil _
      exact hopened.symm
    | keywords pairs =>
      rw [opened, collectionTests_conjunction, List.flatMap_map, collectionTests_mk rfl]
      exact List.flatMap_eq_nil_iff.mpr fun pair _ => collectionTests_keywordTest ix pair
    | _ => rfl
  and left right := collectionTests_binary .and left right
  inert _ := collectionTests_of_inert

end Expr

/-- Nodes of one shape are both runs of placeholders or both not. -/
theorem Node.isRange_of_shape_eq {n : Node α} {m : Node β} (h : m.shape = n.shape) :
    m.isRange = n.isRange := by
  have hshape : ∀ {γ : Type} (k : Node γ), k.shape.isRange = k.isRange := by
    intro γ k
    cases k <;> rfl
  rw [← hshape m, h, hshape]

/-- **Reading an expression** without placeholders makes runs of the collections that it tests, and
of nothing else. -/
theorem Scope.reads_rangeFree {s : Scope} (e : Expr) : e.Unplaced →
    ∀ expected ps a qs, s.Reads e expected ps a qs → (a.RangeFree ↔ e.CollectionFree) := by
  refine Expr.induction (P := fun e => e.Unplaced →
    ∀ expected ps a qs, s.Reads e expected ps a qs → (a.RangeFree ↔ e.CollectionFree)) ?_ e
  intro n ih hnone expected ps a qs hread
  obtain ⟨hdata, hchildren⟩ := Expr.unplaced_mk.mp hnone
  rcases reads_cases hread with
    ⟨v, p, rfl, -, -, rfl, -⟩ | ⟨left, values, left', rs, added, rfl, -, -, rfl, -⟩ |
    ⟨hplain, cs, m, hcs, rfl, hshape, hreads⟩
  · exact iff_of_true (Expr.rangeFree_mk.mpr ⟨rfl, fun _ h => nomatch h⟩)
      (Expr.collectionFree_mk.mpr ⟨rfl, fun _ h => nomatch h⟩)
  · refine iff_of_false (Expr.not_rangeFree_isIn left' rs.length values.length) fun h => ?_
    cases (Expr.collectionFree_mk.mp h).1
  · have hrange : m.isRange = false := by
      rw [Node.isRange_of_shape_eq hshape]
      cases n <;> first | rfl | cases hdata
    have htests : n.testsCollection = false := by
      cases n with
      | isIn left right =>
        obtain ⟨k⟩ := right
        cases k with
        | pin v => exact hplain.elim
        | _ => rfl
      | _ => rfl
    have hcs' := children_of_typedChildren hcs
    rw [Expr.rangeFree_mk, Expr.collectionFree_mk, hrange, htests, ← hcs', List.forall_mem_map]
    refine and_congr_right fun _ => hreads.forall_iff fun c hc ps a qs hread => ?_
    have hmem : c.1 ∈ n.children := hcs' ▸ List.mem_map_of_mem hc
    exact ih c.1 hmem (hchildren c.1 hmem) _ _ _ _ hread

/-! ### Queries -/

/-- A query without what planning passes over at any depth: the source of an association join and
the fields of a selection. -/
def Query.considered : Query → Query := fold fun c => ⟨c.considered⟩

namespace Query

theorem considered_mk (c : Clauses Query) :
    considered ⟨c⟩ = ⟨c.considered.edit id considered⟩ := by
  rw [considered, fold_mk, Clauses.map_eq_edit, Clauses.considered_edit]

/-- The level that is planned tests collections where the given one does, as far as planning
considers it. -/
theorem collectionFree_prepared {ctx : Context} {c : Clauses Query} {b : Bindings Query}
    (hb : c.resolve ctx = .ok b) :
    (∀ clause, ∀ i ∈ (c.prepared b).items clause,
        i.Holds Expr.CollectionFree fun q => q.considered.All Expr.CollectionFree) ↔
      (considered ⟨c⟩).All Expr.CollectionFree := by
  let tests : Item Query → List Expr :=
    Item.gather Expr.collectionTests fun q => (q.considered.reading .all).flatMap
      Expr.collectionTests
  have hitem : ∀ i : Item Query, tests i = [] ↔
      i.Holds Expr.CollectionFree fun q => q.considered.All Expr.CollectionFree := by
    intro i
    cases i with
    | expr e => exact Expr.collectionTests_eq_nil
    | nested q =>
      simp only [tests, Item.gather, List.flatMap_eq_nil_iff, Expr.collectionTests_eq_nil]
      exact Iff.rfl
  rw [considered_mk, all_mk]
  refine forall_congr' fun clause => ?_
  have hgather := Clauses.gather_prepared (κ := fun q : Query => (q.considered.reading .all).flatMap
    Expr.collectionTests) Expr.gathers_collectionTests hb clause
  have hsame : (∀ i ∈ (c.prepared b).items clause, tests i = []) ↔
      ∀ i ∈ c.considered.items clause, tests i = [] := by
    rw [← List.flatMap_eq_nil_iff, ← List.flatMap_eq_nil_iff, hgather]
  simp only [hitem] at hsame
  rw [hsame, Clauses.items_edit, List.forall_mem_map]
  refine forall₂_congr fun i _ => ?_
  cases i <;> rfl

end Query

/-- A task makes runs of the collections that its item tests. -/
theorem Task.Performs.rangeFree {place : Clause → Scope} {plan : Query → Binder Query}
    {t : Task Query} {i : Item Query} (h : t.Performs place plan ps i qs)
    (ht : t.item.Holds Expr.Unplaced fun q => ∀ p, (plan q).Yields ps p qs →
      (p.All Expr.RangeFree ↔ q.considered.All Expr.CollectionFree)) :
    i.All Expr.RangeFree ↔
      t.item.Holds Expr.CollectionFree fun q => q.considered.All Expr.CollectionFree := by
  obtain ⟨clause, expected, item⟩ := t
  cases item with
  | expr e =>
    cases i with
    | nested planned => cases h
    | expr a =>
      obtain ⟨type, -, hread⟩ := h
      exact Scope.reads_rangeFree e ht type ps a qs hread
  | nested q =>
    cases i with
    | expr a => cases h
    | nested planned => exact ht planned h

/-- **Planning a query** without placeholders makes runs of the collections that it tests, and of
nothing else. -/
theorem Query.plan_rangeFree (q : Query) : q.slots .all = [] → ∀ (ctx : Context) ps t qs,
    (q.plan ctx).Yields ps t qs →
      (t.All Expr.RangeFree ↔ q.considered.All Expr.CollectionFree) := by
  refine Query.induction_items (P := fun q => q.slots .all = [] → ∀ (ctx : Context) ps t qs,
    (q.plan ctx).Yields ps t qs →
      (t.All Expr.RangeFree ↔ q.considered.All Expr.CollectionFree)) ?_ q
  rintro c ih hnone ctx ps ⟨d⟩ qs h
  obtain ⟨b, hb, -, hchain⟩ := Query.plan_cases h
  have hknown := Query.prepared_unplaced hb hnone ih
  have hitems : ∀ {e : Clauses Query} {P : Item Query → Prop},
      (∀ clause, ∀ i ∈ e.items clause, P i) ↔
        ∀ i ∈ ctx.operation.clauseOrder.flatMap e.items, P i := by
    intro e P
    simp only [List.mem_flatMap, Operation.mem_clauseOrder]
    refine ⟨fun h i ⟨clause, _, hi⟩ => h clause i hi, fun h clause i hi => h i ⟨clause, ?_, hi⟩⟩
    rintro rfl
    cases hi
  have htasks : ctx.operation.clauseOrder.flatMap (c.prepared b).items =
      (ctx.operation.clauseOrder.flatMap
        ((c.prepared b).tasks (ctx.typeOf b.sources))).map Task.item := by
    rw [List.map_flatMap]
    exact List.flatMap_congr fun clause _ => ((c.prepared b).map_item_tasks _ clause).symm
  rw [Query.all_mk, ← Query.collectionFree_prepared hb, hitems, hitems, htasks,
    List.forall_mem_map]
  refine hchain.forall_iff fun task htask ps i qs hperforms => hperforms.rangeFree ?_
  have hitem := Clauses.forall_tasks hknown _ task htask
  revert hitem
  cases task.item with
  | expr e => exact id
  | nested q => exact fun hq p hyields => hq _ ps p qs hyields

/-- A planned query has no key if a run of placeholders stands somewhere in it. -/
theorem Query.cacheKey_eq_uncacheable {q : Query} (h : q.Planned) {ctx : Context}
    {operation : Operation} :
    q.cacheKey ctx operation = .uncacheable ↔ ¬ q.All Expr.RangeFree := by
  have hkey : Guarded _ _ (q.key ctx operation) := Query.guarded_key h operation
  unfold cacheKey
  cases hnodes : q.key ctx operation with
  | none =>
    refine iff_of_true rfl fun hfree => ?_
    cases hnodes.symm.trans ((hkey _).mpr ⟨hfree, rfl⟩)
  | some nodes => exact iff_of_false (fun h => nomatch h) (not_not_intro ((hkey nodes).mp hnodes).1)

/-- **Which plans have no key.**  Keys being enabled, take a query without placeholders and a plan
of it.  The plan has no key if and only if the query tests an interpolated collection for
membership, in whatever clause at whatever depth planning comes upon it and however many values the
collection has; and if and only if a run of placeholders stands somewhere in the planned query. -/
theorem Planner.plan_uncacheable (p : Planner) (q : Query) (operation : Operation)
    (caps : Capabilities) (plan : Plan) (henabled : p.cache.enabled = true)
    (hquery : q.slots .all = []) (hplan : p.plan q operation caps = .ok plan) :
    (plan.cacheKey = .uncacheable ↔
      ∃ e ∈ q.considered.reading operation, ∃ x ∈ e.walk, x.node.testsCollection = true) ∧
    (plan.cacheKey = .uncacheable ↔
      ∃ e ∈ plan.query.reading operation, ∃ x ∈ e.walk, x.node.isRange = true) := by
  obtain ⟨hyields, hkey⟩ := Planner.plan_cases hplan
  have hruns := q.plan_rangeFree hquery _ _ _ _ hyields
  have huncacheable : plan.cacheKey = .uncacheable ↔ ¬ plan.query.All Expr.RangeFree := by
    rw [hkey, Planner.cacheKey, if_pos henabled]
    exact Query.cacheKey_eq_uncacheable (q.plan_planned _ _ _ _ hyields)
  have hexists : ∀ {q : Query} {test : Node Expr → Bool},
      ¬ q.All (fun e => ∀ x ∈ e.walk, test x.node = false) ↔
        ∃ e ∈ q.reading operation, ∃ x ∈ e.walk, test x.node = true := by
    intro q test
    simp only [Query.All, not_forall, Bool.not_eq_false, exists_prop, Query.mem_reading]
  exact ⟨huncacheable.trans ((not_congr hruns).trans hexists), huncacheable.trans hexists⟩

/-- Posts by users of one of some roles, whom a subquery looks up. -/
def Query.byRoles (roles : List Value) : Query :=
  (Query.ofTable "posts").innerJoin
    (.subquery ((Query.ofTable "users").filter
      (.dynamic (.isIn (.field 0 "role") (.pin (.list roles))))))
    ((Expr.field 0 "author").eq (.field 1 "id"))

/-- A test within a subquery counts, even if there are no roles. -/
theorem Planner.plan_uncacheable_nested :
    ∃ plan, (⟨.empty, .builtin, none, {}⟩ : Planner).plan (.byRoles []) .all
        Dialect.postgres.capabilities = .ok plan ∧
      (Query.byRoles []).slots .all = [] ∧ plan.cacheKey = .uncacheable ∧
      ∃ e ∈ plan.query.reading .all, ∃ x ∈ e.walk, x.node.isRange = true := by
  have hplanned : ((⟨.empty, .builtin, none, {}⟩ : Planner).plan (.byRoles []) .all
      Dialect.postgres.capabilities).toOption.isSome = true := by
    decide +kernel
  obtain ⟨plan, hplan⟩ := Option.isSome_iff_exists.mp hplanned
  have hok := Except.toOption_eq_some_iff.mp hplan
  have hslots : (Query.byRoles []).slots .all = [] := by decide +kernel
  have htests : ∃ e ∈ (Query.byRoles []).considered.reading .all, ∃ x ∈ e.walk,
      x.node.testsCollection = true := by
    decide +kernel
  obtain ⟨hquery, hplans⟩ := Planner.plan_uncacheable _ _ .all _ plan rfl hslots hok
  exact ⟨plan, hok, hslots, hquery.mpr htests, hplans.mp (hquery.mpr htests)⟩

end QueryPlanner
