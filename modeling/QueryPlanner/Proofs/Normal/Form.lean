import QueryPlanner.Proofs.CacheKey.Query
import QueryPlanner.Proofs.Normal.Expansion
import QueryPlanner.Proofs.Normal.Level

/-!
# The form that normalization gives a query

What normalization makes of a planned query, where it accepts it, can be written down without the
checks: at every level literals are put in their stored forms, the selection is filled in with its
columns, and entries that hold nothing are dropped.

* `Clauses.normal`, `Query.normal` — the normal form of a level and of a query
* `Query.Planned.normalize_eq` — normalization yields the normal form, if anything
-/

namespace QueryPlanner

open HasExprs

variable {σ τ : Type}

/-! ### The normal form -/

namespace Clauses

/-- The selection of a level with its columns filled in, where the operation reads rows. -/
def normalSelect (ctx : Context) (c : Clauses Query) : Option Select :=
  match ctx.operation with
  | .all => some ⟨(c.dumped ctx).selected, ((c.dumped ctx).columns ctx).fields⟩
  | .updateAll | .deleteAll => rewrite (c.passed ctx) c.select

/-- The normal form of a level whose nested queries have theirs.  Literals that are compared with
fields or assigned to them are in their stored forms, but not in fragments in place of common table
expressions; entries of `order_by` and `group_by` that hold nothing are dropped. -/
def normal (ctx : Context) (c : Clauses Query) : Clauses Query where
  root := c.root.map (FromClause.edit (c.passed ctx) id)
  joins := c.joins.map (Join.edit (c.passed ctx) id)
  wheres := rewrite (c.passed ctx) c.wheres
  groupBys := (rewrite (c.passed ctx) c.groupBys).filter (!·.isEmpty)
  havings := rewrite (c.passed ctx) c.havings
  orderBys := (rewrite (c.passed ctx) c.orderBys).filter (!·.isEmpty)
  select := c.normalSelect ctx
  distinct := rewrite (c.passed ctx) c.distinct
  limit := rewrite (c.passed ctx) c.limit
  offset := rewrite (c.passed ctx) c.offset
  updates := c.updates.map fun u => { u with
    fields := u.fields.map fun field =>
      (field.1, c.assigned ctx (c.assignedAt? ctx u.op field.1) field.2) }
  windows := rewrite (c.passed ctx) c.windows
  combinations := c.combinations
  ctes := c.ctes
  preloads := c.preloads
  lock := rewrite (c.passed ctx) c.lock
  queryPrefix := c.queryPrefix
  sources := c.sources

theorem prune_filled_dumped (ctx : Context) (c : Clauses Query) :
    ((c.dumped ctx).filled ctx).prune = c.normal ctx := by
  unfold filled normal normalSelect
  cases ctx.operation <;> rfl

/-- A level with its nested queries replaced by what they are in the context that it gives them. -/
def within (ctx : Context) (c : Clauses (Context → Query)) : Clauses Query :=
  c.map fun nested => nested (ctx.nested c.queryPrefix)

end Clauses

/-- The normal form of a query. -/
def Query.normal : Query → Context → Query := fold fun c ctx => ⟨(c.within ctx).normal ctx⟩

/-- The level that a query is normalized from: its nested queries have their normal forms. -/
def Clauses.nestedNormal (ctx : Context) (c : Clauses Query) : Clauses Query :=
  c.edit id fun q => q.normal (ctx.nested c.queryPrefix)

theorem Query.normal_mk (c : Clauses Query) (ctx : Context) :
    normal ⟨c⟩ ctx = ⟨(c.nestedNormal ctx).normal ctx⟩ := by
  have hwithin : (c.map normal).within ctx = c.nestedNormal ctx := by
    rw [Clauses.within, Clauses.map_eq_edit, Clauses.map_eq_edit, Clauses.edit_edit]
    rfl
  rw [normal, fold_mk]
  exact congrArg (fun c => Query.mk (Clauses.normal ctx c)) hwithin

/-- What a query projects once it is normalized. -/
def Query.projection (ctx : Context) (q : Query) : Projection :=
  ((q.clauses.nestedNormal ctx).dumped ctx).projectionFor ctx

/-! ### Normalization yields it -/

theorem Except.bind_eq_ok {α β : Type} {x : Except PlanError α} {f : α → Except PlanError β}
    {b : β} : (x >>= f) = .ok b ↔ ∃ a, x = .ok a ∧ f a = .ok b := by
  cases x <;> simp [bind, Except.bind]

/-- What a level goes through when it is accepted. -/
theorem Clauses.normalize_cases {c : Clauses Normalized} {ctx : Context} {r : Query × Projection}
    (h : c.normalize ctx = .ok r) : ∃ level checked projected projection,
      c.mapM (normalized (ctx.nested c.queryPrefix)) = .ok level ∧
      level.checkReferences ctx = .ok checked ∧
      checked.projectFor ctx = .ok (projected, projection) ∧
      r = (⟨projected.prune⟩, projection) := by
  unfold normalize at h
  cases hbound : c.sources.isEmpty with
  | true => simp [hbound, throw, throwThe, MonadExceptOf.throw, bind, Except.bind] at h
  | false =>
    simp only [hbound, Bool.false_eq_true, if_false, Except.bind_eq_ok, Except.ok.injEq] at h
    obtain ⟨-, -, -, -, level, hlevel, checked, hchecked, -, -, ⟨projected, projection⟩, hprojected,
      hr⟩ := h
    exact ⟨level, checked, projected, projection, hlevel, hchecked, hprojected, hr.symm⟩

namespace Query

/-- **Normalization yields the normal form** of a planned query and what it projects, if it accepts
the query. -/
theorem Planned.normalize_eq {q : Query} (hq : q.Planned) : ∀ {ctx : Context}
    {r : Query × Projection}, q.normalize ctx = .ok r → r = (q.normal ctx, q.projection ctx) := by
  induction hq with
  | @mk c level _ ih =>
    intro ctx r h
    rw [normalize_mk] at h
    obtain ⟨nested, checked, projected, projection, hnested, hchecked, hprojected, rfl⟩ :=
      Clauses.normalize_cases h
    obtain ⟨haccepted, hlevel⟩ :=
      ((c.map normalize).guarded_normalized (ctx.nested c.queryPrefix)).eq_ok_iff.mp hnested
    have hnormal : nested = c.nestedNormal ctx := by
      rw [hlevel, Clauses.map_eq_edit, Clauses.map_eq_edit, Clauses.edit_edit]
      refine Clauses.edit_congr fun clause i hi => ?_
      cases i with
      | expr e => rfl
      | nested q =>
        obtain ⟨r, hr⟩ := haccepted clause _ ((c.nested_mem_items_map normalize clause _).mpr
          ⟨q, hi, rfl⟩)
        simp only [Item.map, Function.comp_apply, Clauses.normalized, hr]
        exact congrArg (fun r => Item.nested r.1) (ih clause q hi hr)
    have hselect : ∀ s, nested.select = some s → s.fields = [] := by
      rw [hnormal, Clauses.nestedNormal, ← Clauses.map_eq_edit]
      exact level.select
    obtain ⟨-, rfl⟩ := (nested.guarded_checkReferences ctx hselect).eq_ok_iff.mp hchecked
    rcases (nested.dumped ctx).projectFor_cases ctx with ⟨site, fault, herror⟩ | hok
    · cases herror.symm.trans hprojected
    · obtain ⟨rfl, rfl⟩ := Prod.mk.inj (Except.ok.inj (hok.symm.trans hprojected))
      rw [normal_mk, Clauses.prune_filled_dumped, hnormal]
      rfl

end Query

end QueryPlanner
