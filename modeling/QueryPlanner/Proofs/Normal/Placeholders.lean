import QueryPlanner.Proofs.Normal.Form
import QueryPlanner.Proofs.Plan.Placeholders

/-!
# Placeholders of a normalized query

A query is run from its normal form, whose selections are read by the columns they come to.  Read
so, a normal form has the placeholders of the planned query in the same order: columns hold the
placeholders of the selection, stored forms those of the literals they replace, and what is dropped
holds none.  So the placeholders still enumerate the parameters.

* `Query.projectedReading` — the expressions of a query, selections by their columns
* `Query.Planned.projectedDetails_normal` — a normal form has the placeholders of the query
* `Planner.prepare_placeholders` — the placeholders of a normalized plan are `0, 1, …`
-/

namespace QueryPlanner

open HasExprs

variable {σ τ δ : Type}

/-! ### Reading a selection by its columns -/

namespace Clauses

/-- The items of a clause, where a selection holds its columns only. -/
def projectedItems (c : Clauses σ) : Clause → List (Item σ)
  | .select => (c.select.toList.flatMap (·.fields)).map .expr
  | clause => c.items clause

theorem projectedItems_map (g : σ → τ) (c : Clauses σ) (clause : Clause) :
    (c.map g).projectedItems clause = (c.projectedItems clause).map (Item.map id g) := by
  have hitems : (c.map g).items clause = (c.items clause).map (Item.map id g) := by
    rw [map_eq_edit, items_edit]
  cases clause with
  | select =>
    simp only [projectedItems, List.map_map]
    rfl
  | _ => exact hitems

/-- The expressions of a level whose nested queries are given by their readings. -/
def projectedRead (c : Clauses (Operation → List Expr)) (operation : Operation) : List Expr :=
  operation.clauseOrder.flatMap fun clause => (c.projectedItems clause).flatMap Item.read

end Clauses

/-- The expressions of a query as an operation reads them, selections by their columns. -/
def Query.projectedReading : Query → Operation → List Expr := fold Clauses.projectedRead

/-- The data of a detail everywhere in the query, selections read by their columns. -/
def Query.projectedDetails (d : Detail δ) (operation : Operation) (q : Query) : List δ :=
  (q.projectedReading operation).flatMap (Expr.details d)

/-- The placeholders of a query in reading order, selections read by their columns. -/
def Query.projectedSlots (operation : Operation) (q : Query) : List Slot :=
  q.projectedDetails .numbers operation

/-- The data of a detail in an item, selections read by their columns. -/
def Item.projectedDetails (d : Detail δ) : Item Query → List δ
  | expr e => e.details d
  | nested q => q.projectedDetails d .all

theorem Query.projectedDetails_mk (d : Detail δ) (operation : Operation) (c : Clauses Query) :
    projectedDetails d operation ⟨c⟩ = operation.clauseOrder.flatMap fun clause =>
      (c.projectedItems clause).flatMap (Item.projectedDetails d) := by
  rw [projectedDetails, projectedReading, fold_mk, Clauses.projectedRead, List.flatMap_assoc]
  refine List.flatMap_congr fun clause _ => ?_
  rw [Clauses.projectedItems_map, List.flatMap_map, List.flatMap_assoc]
  refine List.flatMap_congr fun i _ => ?_
  cases i with
  | expr e => exact List.flatMap_singleton ..
  | nested q => rfl

/-! ### The normal form of a level -/

/-- A bulk write selects nothing. -/
theorem Clauses.select_eq_none_of_checkOperation {operation : Operation} {c : Clauses σ}
    (hbulk : operation ≠ .all) (h : ∃ u, c.checkOperation operation = .ok u) : c.select = none := by
  have hfilters : ∀ u, c.checkOnlyFilters operation = .ok u → c.select = none := by
    intro u hu
    unfold checkOnlyFilters at hu
    split at hu
    · cases hu
    · rename_i hnone
      have hselect := List.find?_eq_none.mp hnone (.select, c.select.isSome)
        (List.mem_cons_of_mem _ List.mem_cons_self)
      simpa using hselect
  obtain ⟨u, hu⟩ := h
  cases operation with
  | all => exact absurd rfl hbulk
  | updateAll | deleteAll =>
    obtain ⟨-, -, hu⟩ := Except.bind_eq_ok.mp hu
    exact hfilters u hu

namespace Clauses

variable {ctx : Context} {c : Clauses Query} {d : Detail δ} {D : Item Query → List δ}

/-- Entries without expressions may be dropped. -/
theorem ofExprs_filter {X : Type} [HasExprs X] (keep : X → Bool) (xs : List X)
    (h : ∀ x ∈ xs, keep x = false → exprs x = []) :
    (Item.ofExprs (xs.filter keep) : List (Item Query)) = Item.ofExprs xs := by
  suffices hexprs : exprs (xs.filter keep) = exprs xs from congrArg (List.map Item.expr) hexprs
  simp only [exprs]
  induction xs with
  | nil => rfl
  | cons x xs ih =>
    have hxs := ih fun y hy => h y (List.mem_cons_of_mem x hy)
    cases hkeep : keep x with
    | true => rw [List.filter_cons_of_pos hkeep, List.flatMap_cons, List.flatMap_cons, hxs]
    | false =>
      rw [List.filter_cons_of_neg (by simp [hkeep]), List.flatMap_cons,
        h x List.mem_cons_self hkeep, List.nil_append, hxs]

theorem ofExprs_orderBys (orderBys : List OrderBy) :
    (Item.ofExprs (orderBys.filter (!·.isEmpty)) : List (Item Query)) = Item.ofExprs orderBys := by
  refine ofExprs_filter _ _ fun o _ ho => ?_
  cases o with
  | items items =>
    obtain rfl : items = [] := by simpa [OrderBy.isEmpty] using ho
    rfl
  | pinned names => rfl

theorem ofExprs_groupBys (groupBys : List GroupBy) :
    (Item.ofExprs (groupBys.filter (!·.isEmpty)) : List (Item Query)) = Item.ofExprs groupBys := by
  refine ofExprs_filter _ _ fun g _ hg => ?_
  cases g with
  | exprs es =>
    obtain rfl : es = [] := by simpa [GroupBy.isEmpty] using hg
    rfl
  | pinned names => rfl

/-- In most clauses the normal form has the items as they pass, in their places. -/
theorem items_normal_eq {clause : Clause}
    (h : clause ≠ .withCte ∧ clause ≠ .select ∧ clause ≠ .update) :
    (c.normal ctx).items clause = (c.edit (c.passed ctx) id).items clause := by
  cases clause with
  | withCte | select | update => simp at h
  | orderBy => exact ofExprs_orderBys _
  | groupBy => exact ofExprs_groupBys _
  | combination => simp [items, normal, edit, Combination.map]
  | _ => rfl

theorem details_passed (hd : d.SparesInert) (e : Expr) :
    (c.passed ctx e).details d = e.details d := Expr.details_settle hd e .nothing

theorem details_assigned (hd : d.SparesInert) (type? : Option FieldType) (e : Expr) :
    (c.assigned ctx type? e).details d = e.details d := by
  unfold assigned
  split
  · rw [Expr.details_of_inert hd _ (Expr.inert_literal _),
      Expr.details_of_inert hd _ (Expr.inert_literal _)]
  · exact details_passed hd e

theorem flatMap_exprs (hD : ∀ e, D (.expr e) = e.details d) (es : List Expr) :
    (es.map Item.expr).flatMap D = es.flatMap (Expr.details d) := by
  rw [List.flatMap_map]
  exact List.flatMap_congr fun e _ => hD e

/-- Expressions that carry the same data may replace one another. -/
theorem flatMap_items_edit (hD : ∀ e, D (.expr e) = e.details d) {f : Expr → Expr}
    (hf : ∀ e, (f e).details d = e.details d) (clause : Clause) :
    ((c.edit f id).items clause).flatMap D = (c.items clause).flatMap D := by
  rw [items_edit, List.flatMap_map]
  refine List.flatMap_congr fun i _ => ?_
  cases i with
  | expr e => rw [Item.map, hD, hD, hf]
  | nested q => rfl

/-- The columns of a level carry what its selection carries. -/
theorem flatMap_projectedItems_select (hd : d.SparesInert) (hD : ∀ e, D (.expr e) = e.details d)
    (hfields : ∀ s, c.select = some s → s.fields = [])
    (hoperation : ∃ u, c.checkOperation ctx.operation = .ok u) :
    ((c.normal ctx).projectedItems .select).flatMap D = (c.items .select).flatMap D := by
  have hbulk : ctx.operation ≠ .all → c.normalSelect ctx = none ∧ c.select = none := by
    intro hne
    have hnone := select_eq_none_of_checkOperation hne hoperation
    unfold normalSelect
    rw [hnone]
    cases hop : ctx.operation with
    | all => exact absurd hop hne
    | updateAll | deleteAll => exact ⟨rfl, rfl⟩
  have hselected : (c.dumped ctx).selected.details d =
      (exprs c.select).flatMap (Expr.details d) := by
    cases hselect : c.select with
    | none =>
      have hroot : (c.dumped ctx).selected = .binding 0 := by
        simp [selected, dumped, edit, rewrite, hselect]
      rw [hroot]
      exact Expr.details_of_inert hd _
        (Expr.inert_mk.mpr ⟨rfl, fun _ h => absurd h List.not_mem_nil⟩)
    | some s =>
      have hexpr : (c.dumped ctx).selected = c.passed ctx s.expr := by
        simp [selected, dumped, edit, rewrite, hselect]
      rw [hexpr, details_passed hd]
      simp [exprs, hfields s hselect]
  simp only [projectedItems, normal, items, Item.ofExprs, flatMap_exprs hD]
  by_cases hall : ctx.operation = .all
  · simp only [normalSelect, hall, Option.toList_some, List.flatMap_singleton]
    exact ((c.dumped ctx).projectable ctx).details_expansion hd _ |>.trans hselected
  · obtain ⟨hnormal, hselect⟩ := hbulk hall
    rw [hnormal, hselect]
    rfl

/-- **The normal form of a level** carries in every clause what the level carries there. -/
theorem flatMap_projectedItems_normal (hd : d.SparesInert) (hD : ∀ e, D (.expr e) = e.details d)
    (hfields : ∀ s, c.select = some s → s.fields = [])
    (hoperation : ∃ u, c.checkOperation ctx.operation = .ok u) (clause : Clause) :
    ((c.normal ctx).projectedItems clause).flatMap D = (c.items clause).flatMap D := by
  by_cases hclause : clause ≠ .withCte ∧ clause ≠ .select ∧ clause ≠ .update
  · have hitems : (c.normal ctx).projectedItems clause = (c.normal ctx).items clause := by
      cases clause with
      | select => exact absurd rfl hclause.2.1
      | _ => rfl
    rw [hitems, items_normal_eq hclause]
    exact c.flatMap_items_edit hD (details_passed hd) clause
  · cases clause with
    | withCte => rfl
    | select => exact flatMap_projectedItems_select hd hD hfields hoperation
    | update =>
      simp only [projectedItems, items, Item.ofExprs, flatMap_exprs hD, normal, exprs,
        List.flatMap_map, List.flatMap_assoc, List.flatMap_singleton, details_assigned hd]
    | _ => simp at hclause

end Clauses

/-! ### Queries -/

namespace Query

/-- **A normal form has the placeholders of the planned query**, and whatever else expressions carry
that fields, literals and tuples do not, in the same order. -/
theorem Planned.projectedDetails_normal {d : Detail δ} (hd : d.SparesInert) {q : Query}
    (hq : q.Planned) : ∀ {ctx : Context}, (∃ r, q.normalize ctx = .ok r) →
      (q.normal ctx).projectedDetails d ctx.operation = q.details d ctx.operation := by
  induction hq with
  | @mk c level _ ih =>
    intro ctx h
    obtain ⟨haccepted, hnested⟩ := (normalize_ok level.select ctx).mp h
    have hoperation : ∃ u, (c.nestedNormal ctx).checkOperation ctx.operation = .ok u := by
      rw [← Clauses.checkOperation_outline, Clauses.nestedNormal, ← Clauses.map_eq_edit,
        Clauses.outline_map, Clauses.checkOperation_outline]
      exact haccepted.operation
    have hselect : ∀ s, (c.nestedNormal ctx).select = some s → s.fields = [] := by
      rw [Clauses.nestedNormal, ← Clauses.map_eq_edit]
      exact level.select
    rw [normal_mk, projectedDetails_mk, details_mk]
    refine List.flatMap_congr fun clause _ => ?_
    rw [Clauses.flatMap_projectedItems_normal (D := Item.projectedDetails d) hd (fun _ => rfl)
      hselect hoperation, Clauses.nestedNormal, Clauses.items_edit, List.flatMap_map]
    refine List.flatMap_congr fun i hi => ?_
    cases i with
    | expr e => exact (Item.details_expr d e).symm
    | nested q => exact ih clause q hi (hnested clause q hi)

end Query

/-- **The placeholders of a normalized plan enumerate its parameters.**  For every query without
placeholders of its own that is planned and normalized for an operation: the normalized query, read
in the order of the operation and each selection by its columns, has the placeholders of the planned
one.  They are `0, …, n - 1`, where `n` is the number of parameters, and each run, even an empty
one, starts at the number of placeholders before it. -/
theorem Planner.prepare_placeholders (p : Planner) (q : Query) (operation : Operation)
    (caps : Capabilities) (plan : Plan) (projection : Projection) (hquery : q.slots .all = [])
    (hprepare : p.prepare q operation caps = .ok (plan, projection)) :
    (∃ planned, p.plan q operation caps = .ok planned ∧ plan.parameters = planned.parameters ∧
      plan.query.projectedSlots operation = planned.query.slots operation) ∧
    (plan.query.projectedSlots operation).flatMap Slot.indices =
      List.range plan.parameters.length ∧
    ∀ before s after, plan.query.projectedSlots operation = before ++ s :: after →
      s.start = (before.flatMap Slot.indices).length := by
  obtain ⟨planned, hplan, hnormalize⟩ := Except.bind_eq_ok.mp hprepare
  obtain ⟨⟨normal, projected⟩, hnormal, hresult⟩ := Except.bind_eq_ok.mp hnormalize
  obtain ⟨rfl, rfl⟩ := Prod.mk.inj (Except.ok.inj hresult)
  obtain ⟨hyields, -⟩ := plan_cases hplan
  have hplanned := q.plan_planned _ _ _ _ hyields
  have hslots : normal.projectedSlots operation = planned.query.slots operation := by
    obtain ⟨rfl, -⟩ := Prod.mk.inj (hplanned.normalize_eq hnormal)
    exact hplanned.projectedDetails_normal Detail.sparesInert_numbers ⟨_, hnormal⟩
  obtain ⟨htiles, -⟩ := Query.plan_tiles q hquery _ _ _ _ hyields
  refine ⟨⟨planned, hplan, rfl, hslots⟩, ?_, fun before s after hsplit => ?_⟩
  · rw [List.range_eq_range']
    exact hslots ▸ htiles.indices
  · have hsame := hslots.symm.trans hsplit
    have hstart := (hsame ▸ htiles : Slot.Tiles (before ++ s :: after) _ _).start_eq
    rwa [List.length_nil, Nat.zero_add] at hstart

/-- Titles beside interpolated values, of posts by grown-up authors: a list in a tuple is selected,
a subquery is joined, an empty collection is tested, and an ordering holds nothing. -/
def Query.titles : Query :=
  ((((Query.ofTable "posts").innerJoin
    (.subquery (((Query.ofTable "users").filter ((Expr.field 0 "age").gt (.pin (.int 18)))).select
      (.list [.field 0 "id", .pin (.bool true)])))
    (.isIn (.field 0 "author") (.pin (.list [])))).select
      (.tuple [.list [.pin (.int 1), .field 0 "title"], .pin (.string "t")])).orderBy []).filter
        ((Expr.field 0 "title").eq (.pin (.string "t")))

/-- The columns of the titles and of the subquery hold the placeholders of the tuples and lists that
they come from. -/
theorem Planner.prepare_placeholders_titles :
    ∃ plan projection, (⟨.empty, .builtin, none, {}⟩ : Planner).prepare .titles .all
        Dialect.postgres.capabilities = .ok (plan, projection) ∧
      plan.query.projectedSlots .all = [⟨0, 1⟩, ⟨1, 1⟩, ⟨2, 1⟩, ⟨3, 1⟩, ⟨4, 0⟩, ⟨4, 1⟩] ∧
      (plan.query.projectedSlots .all).flatMap Slot.indices =
        List.range plan.parameters.length := by
  have hslots : ((⟨.empty, .builtin, none, {}⟩ : Planner).prepare .titles .all
      Dialect.postgres.capabilities).toOption.map (·.1.query.projectedSlots .all) =
        some [⟨0, 1⟩, ⟨1, 1⟩, ⟨2, 1⟩, ⟨3, 1⟩, ⟨4, 0⟩, ⟨4, 1⟩] := by
    decide +kernel
  obtain ⟨⟨plan, projection⟩, hprepare, hprepared⟩ := Option.map_eq_some_iff.mp hslots
  have hok := Except.toOption_eq_some_iff.mp hprepare
  exact ⟨plan, projection, hok, hprepared,
    (prepare_placeholders _ .titles .all _ plan projection (by decide +kernel) hok).2.1⟩

end QueryPlanner
